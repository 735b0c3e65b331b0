import RackmonIoc.CLib.Cycle
import RackmonIoc.Driver.DevBiRackProt
import RackmonIoc.Program.Wp

/-!
# The heartbeat

Every call of `read_bi` requests a level on pin 45: the parity of the heartbeat counter after a reading
that succeeds, and after one that fails the next bit of a pattern of 21.  The counter wraps at 2^32,
which 21 does not divide.

A run is any sequence of calls from any value of the counter, for any records, under every outcome of
every `gpio_read` and `gpio_write`.
-/

namespace RackmonIoc.Prot

open Program CLib Base Driver Prog

/-! ### The levels -/

/-- The bits of the constant, from the place 20 down. -/
def pattern (k : ℕ) : ℤ := if (308404 : ℕ) &&& 1 <<< (20 - k) ≠ 0 then 1 else 0

/-- **The shift is never out of range**, and the subtraction does not wrap. -/
theorem heartbeat_shift_toNat (hb : UInt32) : (heartbeat_shift hb).toNat = 20 - hb.toNat % 21 := by
  have hmod : (hb % 21).toNat = hb.toNat % 21 := UInt32.toNat_mod hb 21
  have hle : hb % 21 ≤ 20 := by
    rw [UInt32.le_iff_toNat_le, hmod]
    show hb.toNat % 21 ≤ 20
    omega
  unfold heartbeat_shift
  rw [UInt32.toNat_sub_of_le _ _ hle, hmod]
  rfl

theorem heartbeat_shift_le (hb : UInt32) : heartbeat_shift hb ≤ 20 := by
  rw [UInt32.le_iff_toNat_le, heartbeat_shift_toNat]
  exact Nat.sub_le 20 _

theorem heartbeat_eq (hb : UInt32) : heartbeat hb = ((hb.toNat % 2 : ℕ) : ℤ) :=
  congrArg Nat.cast (UInt32.toNat_mod hb 2)

theorem heartbeat_irregular_eq (hb : UInt32) : heartbeat_irregular hb = pattern (hb.toNat % 21) := by
  rw [heartbeat_irregular_shift, heartbeat_shift_toNat]
  rfl

/-- **One level in two is high**, also when the counter wraps. -/
theorem parity_opposite {c : ℕ} (hc : c < 2 ^ 32) :
    (((c + 1) % 2 ^ 32 % 2 : ℕ) : ℤ) = 1 - ((c % 2 : ℕ) : ℤ) := by
  have hcycle : ∀ k < 2, (((k + 1) % 2 : ℕ) : ℤ) = 1 - (k : ℤ) := by decide
  exact step_of_cycle (R := fun a b : ℤ => b = 1 - a) (p := fun k => (k : ℤ)) (by omega) hcycle
    (by decide) hc

/-- **Among any five bits around the pattern two neighbours are equal**, and so are those where the
counter wraps, the bits 3 and 0. -/
theorem pattern_repeats {c : ℕ} (hc : c < 2 ^ 32) :
    ∃ i < 4, pattern ((c + i) % 2 ^ 32 % 21) = pattern ((c + i + 1) % 2 ^ 32 % 21) := by
  have hcycle : ∀ k < 21, ∃ i < 4, pattern ((k + i) % 21) = pattern ((k + i + 1) % 21) := by decide
  exact exists_step (by omega) hcycle (by decide) hc

/-! ### Calls -/

/-- The outside, with the writes to pins that have been requested: the pin and the state.  Every outcome
of a read or a write is possible. -/
def requestEnv : Env DevSig (List (ℤ × ℤ)) := fun w o _ w' =>
  match o with
  | .gpio_write gpio state => w' = w ++ [(gpio, state)]
  | _ => w' = w

/-- A call of `read_bi` in a run: its record, the status that it returns, the writes to pins that it
requests, and the heartbeat counter after it. -/
structure Beat where
  prec : BiRecord
  status : ℤ
  requests : List (ℤ × ℤ)
  counter : UInt32

namespace Beat

/-- The call can go like this, from the value `hb` of the counter. -/
def Runs (hb : UInt32) (b : Beat) : Prop :=
  ∃ prec', Returns requestEnv (read_bi hb b.prec) [] (b.status, b.counter, prec') b.requests

/-- The call reports a reading. -/
def Success (b : Beat) : Prop := b.status = 2

/-- The call reports an error. -/
def Failure (b : Beat) : Prop := b.status = -1

/-- The call requests the level on pin 45, and nothing else. -/
def Requests (b : Beat) (level : ℤ) : Prop := b.requests = [(45, level)]

end Beat

/-- **One call**: it counts, and requests the level of its outcome. -/
theorem wp_beat (hb : UInt32) (prec : BiRecord) :
    wp requestEnv (fun _ _ => True) (fun r w => r.2.1 = hb + 1 ∧
      ((r.1 = 2 ∧ w = [(45, heartbeat (hb + 1))]) ∨
        (r.1 = -1 ∧ w = [(45, heartbeat_irregular (hb + 1))]))) (read_bi hb prec) [] := by
  refine ⟨trivial, fun (istat : ℤ) w hw => ?_⟩
  obtain rfl : w = [] := hw
  show wp _ _ _ (if istat ≥ 0 then _ else _) _
  rw [wp_ite]
  constructor
  · intro _
    have hlog : wp requestEnv (fun _ _ => True) (fun _ w => w = []) (log_zero istat prec) [] := by
      unfold log_zero
      rw [wp_ite]
      exact ⟨fun _ => ⟨trivial, fun _ _ h => h⟩, fun _ => rfl⟩
    show wp _ _ _ ((log_zero istat prec).bind _) _
    rw [wp_bind]
    refine wp_conseq hlog fun _ w hw => ⟨trivial, fun _ w' hw' => ⟨rfl, .inl ⟨rfl, ?_⟩⟩⟩
    rw [hw] at hw'
    exact hw'
  · intro _
    exact ⟨trivial, fun _ w' hw' => ⟨rfl, .inr ⟨rfl, hw'⟩⟩⟩

namespace Beat

variable {hb : UInt32} {b : Beat}

theorem Runs.counter_eq (h : b.Runs hb) : b.counter = hb + 1 := by
  obtain ⟨prec', hrun⟩ := h
  have hpost := wp_returns (wp_beat hb b.prec) hrun
  exact hpost.1

/-- A successful call requests the parity of the counter. -/
theorem Runs.regular (h : b.Runs hb) (hs : b.Success) : b.Requests (b.counter.toNat % 2 : ℕ) := by
  have hcounter := h.counter_eq
  obtain ⟨prec', hrun⟩ := h
  obtain ⟨-, hlevel | hlevel⟩ := wp_returns (wp_beat hb b.prec) hrun
  · rw [← hcounter, heartbeat_eq] at hlevel
    exact hlevel.2
  · have hstatus : (2 : ℤ) = -1 := hs.symm.trans hlevel.1
    omega

/-- A failing call requests the bit of the pattern. -/
theorem Runs.irregular (h : b.Runs hb) (hf : b.Failure) :
    b.Requests (pattern (b.counter.toNat % 21)) := by
  have hcounter := h.counter_eq
  obtain ⟨prec', hrun⟩ := h
  obtain ⟨-, hlevel | hlevel⟩ := wp_returns (wp_beat hb b.prec) hrun
  · have hstatus : (-1 : ℤ) = 2 := hf.symm.trans hlevel.1
    omega
  · rw [← hcounter, heartbeat_irregular_eq] at hlevel
    exact hlevel.2

end Beat

/-! ### Runs -/

/-- A run of calls from the value `hb` of the counter. -/
def HeartRun : UInt32 → List Beat → Prop
  | _, [] => True
  | hb, b :: bs => b.Runs hb ∧ HeartRun b.counter bs

/-- **Healthy and failing heartbeats are distinguishable**: two successful calls in a row request
opposite levels, among five failing calls in a row two neighbours request the same level, and no shift
is out of range. -/
structure Distinguishable (bs : List Beat) : Prop where
  regular : ∀ pre a b post, bs = pre ++ a :: b :: post → a.Success → b.Success →
    ∃ level, (level = 0 ∨ level = 1) ∧ a.Requests level ∧ b.Requests (1 - level)
  irregular : ∀ pre window post, bs = pre ++ window ++ post → window.length = 5 →
    (∀ b ∈ window, b.Failure) →
    ∃ before a b after level, window = before ++ a :: b :: after ∧
      (level = 0 ∨ level = 1) ∧ a.Requests level ∧ b.Requests level
  shift : ∀ b ∈ bs, heartbeat_shift b.counter ≤ 20

section Runs

variable {hb : UInt32} {bs : List Beat}

/-- A step of the counter. -/
theorem toNat_succ (hb : UInt32) : (hb + 1).toNat = (hb.toNat + 1) % 2 ^ 32 := UInt32.toNat_add hb 1

/-- **A call in a run**: the counter has been increased once for every call before it. -/
theorem heartRun_at {pre post : List Beat} {b : Beat} (hrun : HeartRun hb (pre ++ b :: post)) :
    (∃ hb', b.Runs hb') ∧ b.counter.toNat = (hb.toNat + pre.length + 1) % 2 ^ 32 := by
  induction pre generalizing hb with
  | nil =>
    refine ⟨⟨hb, hrun.1⟩, ?_⟩
    rw [hrun.1.counter_eq, toNat_succ]
    rfl
  | cons a pre ih =>
    obtain ⟨hruns, hcounter⟩ := ih hrun.2
    refine ⟨hruns, ?_⟩
    rw [hcounter, hrun.1.counter_eq, toNat_succ, List.length_cons]
    omega

/-- The elements at the places `i` and `i + 1` of a list. -/
theorem split_two {α : Type} {l : List α} {i : ℕ} (h : i + 1 < l.length) :
    ∃ before a b after, l = before ++ a :: b :: after ∧ before.length = i := by
  have hi : i < l.length := by omega
  refine ⟨l.take i, l[i], l[i + 1], l.drop (i + 2), ?_, List.length_take_of_le hi.le⟩
  rw [← List.drop_eq_getElem_cons h, ← List.drop_eq_getElem_cons hi, List.take_append_drop]

theorem pattern_level (k : ℕ) : pattern k = 0 ∨ pattern k = 1 := by
  unfold pattern
  split
  · exact .inr rfl
  · exact .inl rfl

/-- **Healthy and failing heartbeats stay distinguishable**, from every value of the counter. -/
theorem heartbeats_distinguishable (hrun : HeartRun hb bs) : Distinguishable bs := by
  refine ⟨?_, ?_, fun b _ => heartbeat_shift_le b.counter⟩
  · rintro pre a b post rfl ha hb'
    obtain ⟨⟨_, hruna⟩, hca⟩ := heartRun_at hrun
    have hsplit : pre ++ a :: b :: post = (pre ++ [a]) ++ b :: post := by simp
    rw [hsplit] at hrun
    obtain ⟨⟨_, hrunb⟩, hcb⟩ := heartRun_at hrun
    have hnext : b.counter.toNat = (a.counter.toNat + 1) % 2 ^ 32 := by
      rw [hca, hcb, List.length_append, List.length_singleton]
      omega
    refine ⟨_, ?_, hruna.regular ha, ?_⟩
    · omega
    · rw [← parity_opposite a.counter.toNat_lt, ← hnext]
      exact hrunb.regular hb'
  · rintro pre window post rfl hlen hfail
    -- the counter of the first call of the window
    obtain ⟨i, hi, hsame⟩ := pattern_repeats (c := (hb.toNat + pre.length + 1) % 2 ^ 32)
      (Nat.mod_lt _ (by omega))
    obtain ⟨before, a, b, after, rfl, hbefore⟩ := split_two (l := window) (i := i) (by omega)
    have hsplita : pre ++ (before ++ a :: b :: after) ++ post =
        (pre ++ before) ++ a :: (b :: after ++ post) := by simp
    have hsplitb : pre ++ (before ++ a :: b :: after) ++ post =
        (pre ++ before ++ [a]) ++ b :: (after ++ post) := by simp
    obtain ⟨⟨_, hruna⟩, hca⟩ := heartRun_at (hsplita ▸ hrun)
    obtain ⟨⟨_, hrunb⟩, hcb⟩ := heartRun_at (hsplitb ▸ hrun)
    have hplacea : a.counter.toNat = ((hb.toNat + pre.length + 1) % 2 ^ 32 + i) % 2 ^ 32 := by
      rw [hca, List.length_append, hbefore]
      omega
    have hplaceb : b.counter.toNat = ((hb.toNat + pre.length + 1) % 2 ^ 32 + i + 1) % 2 ^ 32 := by
      rw [hcb, List.length_append, List.length_append, List.length_singleton, hbefore]
      omega
    rw [← hplacea, ← hplaceb] at hsame
    refine ⟨before, a, b, after, _, rfl, pattern_level _, hruna.irregular (hfail a (by simp)), ?_⟩
    rw [hsame]
    exact hrunb.irregular (hfail b (by simp))

/-- The outside in which the read brings `istat`. -/
def answering (istat : ℤ) (w : List (ℤ × ℤ)) : (o : DevOp) → Option (o.Reply × List (ℤ × ℤ))
  | .gpio_read _ => some (istat, w)
  | .gpio_write gpio state => some ((0 : ℤ), w ++ [(gpio, state)])
  | .errlogPrintf _ => some ((), w)
  | _ => none

theorem answering_requestEnv (istat : ℤ) (w : List (ℤ × ℤ)) (o : DevOp) (r : o.Reply)
    (w' : List (ℤ × ℤ)) (h : answering istat w o = some (r, w')) : requestEnv w o r w' := by
  cases o with
  | gpio_read gpio => exact (Prod.mk.inj (Option.some.inj h)).2.symm
  | gpio_write gpio state => exact (Prod.mk.inj (Option.some.inj h)).2.symm
  | errlogPrintf message => exact (Prod.mk.inj (Option.some.inj h)).2.symm
  | _ => exact nomatch h

/-- A call can report a reading, and it can report an error. -/
theorem exists_beat (hb : UInt32) (prec : BiRecord) {status : ℤ} (h : status = 2 ∨ status = -1) :
    ∃ b : Beat, b.Runs hb ∧ b.prec = prec ∧ b.status = status := by
  rcases h with rfl | rfl
  · have hexec : exec (answering 1) (read_bi hb prec) [] =
        some ((2, hb + 1, { prec with val := 1, udf := false }), [(45, heartbeat (hb + 1))]) := rfl
    exact ⟨⟨prec, 2, _, hb + 1⟩, ⟨_, returns_of_exec (answering_requestEnv 1) hexec⟩, rfl, rfl⟩
  · have hexec : exec (answering (-1)) (read_bi hb prec) [] =
        some ((-1, hb + 1, { prec with udf := true }), [(45, heartbeat_irregular (hb + 1))]) := rfl
    exact ⟨⟨prec, -1, _, hb + 1⟩, ⟨_, returns_of_exec (answering_requestEnv (-1)) hexec⟩, rfl, rfl⟩

/-- **Every sequence of outcomes has a run**, whatever the records are. -/
theorem exists_heartRun (hb : UInt32) {calls : List (BiRecord × ℤ)}
    (h : ∀ call ∈ calls, call.2 = 2 ∨ call.2 = -1) :
    ∃ bs, HeartRun hb bs ∧ bs.map (fun b => (b.prec, b.status)) = calls := by
  induction calls generalizing hb with
  | nil => exact ⟨[], trivial, rfl⟩
  | cons call calls ih =>
    obtain ⟨b, hruns, hprec, hstatus⟩ := exists_beat hb call.1 (h call List.mem_cons_self)
    obtain ⟨bs, hrun, hcalls⟩ := ih b.counter fun c hc => h c (List.mem_cons_of_mem _ hc)
    refine ⟨b :: bs, ⟨hruns, hrun⟩, ?_⟩
    rw [List.map_cons, hcalls, hprec, hstatus]

/-- Five failing calls, with the counter wrapping at the third. -/
theorem heartbeats_distinguishable_wrap :
    ∃ bs, HeartRun 4294967293 bs ∧ bs.map Beat.status = List.replicate 5 (-1) ∧
      Distinguishable bs := by
  have hstatuses : ∀ call ∈ List.replicate 5 ((default : BiRecord), (-1 : ℤ)),
      call.2 = 2 ∨ call.2 = -1 := by
    intro call hcall
    rw [List.eq_of_mem_replicate hcall]
    exact .inr rfl
  obtain ⟨bs, hrun, hcalls⟩ := exists_heartRun 4294967293 hstatuses
  refine ⟨bs, hrun, ?_, heartbeats_distinguishable hrun⟩
  have hstatus := congrArg (List.map Prod.snd) hcalls
  rwa [List.map_map, List.map_replicate] at hstatus

end Runs

end RackmonIoc.Prot
