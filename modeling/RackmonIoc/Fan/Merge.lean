import RackmonIoc.Driver.DevI2c

/-!
# Fan speeds

`read_fan_speeds` under every sequence of bus outcomes and reply bytes.  A channel is asked with one
command write and eight reads of one byte; `Outcomes` says what comes of each of them.

* `exec_read_bytes` and `exec_channel` are one channel;
* `exec_channels` is the loop, by induction on the channels to go: the speeds of the valid channels up to
  the first that fails, and the status.
-/

namespace RackmonIoc.Fan

open Program CLib Driver Prog

/-! ### The outcomes of a call -/

/-- What comes of the command write of a channel, and of each read after it. -/
structure Channel where
  command : ℤ
  read : ℕ → ReadReply

/-- What comes of the `ioctl` and of the channels. -/
structure Outcomes where
  ioctl : ℤ
  channel : ℕ → Channel

/-- The answers of the bus.  The world is the number of command writes so far, and the number of reads
after the last one. -/
def answers (O : Outcomes) (w : ℕ × ℕ) : (o : BusOp) → Option (BusOp.Reply o × (ℕ × ℕ))
  | .ioctl _ _ => some (O.ioctl, w)
  | .write _ _ => some ((O.channel w.1).command, (w.1 + 1, 0))
  | .read _ _ => some ((O.channel (w.1 - 1)).read w.2, (w.1, w.2 + 1))
  | .mutex_lock | .mutex_unlock | .nanosleep => some ((), w)
  | .printf _ _ _ => some ((), w)
  | _ => none

def Channel.Complete (c : Channel) : Prop := c.command = 2 ∧ ∀ i < 8, (c.read i).status = 1

def Channel.reply (c : Channel) : List UInt8 := (List.range 8).map fun i => byte (c.read i).data 0

/-- `sscanf(buf, "f%d=%d", &ich_check, &rpm_read)` on the reply. -/
def scanned (T : Target) (reply : List UInt8) : ℤ × ℤ × ℤ :=
  sscanf_f_d_d T.undefined_scan (c_string reply) 0 0

/-- The reply is that of channel `ich`: it starts with 'f', has '=' in byte 3, and holds two numbers, of
which the first is `ich + 1`. -/
def Valid (T : Target) (ich : ℕ) (reply : List UInt8) : Prop :=
  byte reply 0 = 102 ∧ byte reply 3 = 61 ∧ (scanned T reply).1 = 2 ∧
    (scanned T reply).2.1 = ich + 1

instance (T : Target) (ich : ℕ) (reply : List UInt8) : Decidable (Valid T ich reply) := by
  unfold Valid
  infer_instance

def speed (T : Target) (reply : List UInt8) : Double := .fin (scanned T reply).2.2

/-! ### One channel -/

section Loop

variable {T : Target} {O : Outcomes} {fd n_fan : ℤ}

theorem exec_read_bytes (O : Outcomes) (fd : ℤ) (c n i : ℕ) (buf : List UInt8) :
    ∃ i', exec (answers O) (read_bytes fd n buf) (c + 1, i) =
      some (if ∀ t < n, ((O.channel c).read (i + t)).status = 1 then
        some (buf ++ (List.range n).map fun t => byte ((O.channel c).read (i + t)).data 0)
        else none, (c + 1, i')) := by
  induction n generalizing i buf with
  | zero => exact ⟨i, by simp [read_bytes]⟩
  | succ n ih =>
    have hread : exec (answers O) (read_bytes fd (n + 1) buf) (c + 1, i) =
        exec (answers O) (if ((O.channel c).read i).status ≠ 1 then ret none
          else read_bytes fd n (buf ++ [byte ((O.channel c).read i).data 0])) (c + 1, i + 1) := rfl
    rw [hread]
    by_cases h : ((O.channel c).read i).status = 1
    · rw [if_neg (not_not.mpr h)]
      obtain ⟨i', hrest⟩ := ih (i + 1) (buf ++ [byte ((O.channel c).read i).data 0])
      refine ⟨i', hrest.trans ?_⟩
      have hall : (∀ t < n + 1, ((O.channel c).read (i + t)).status = 1) ↔
          ∀ t < n, ((O.channel c).read (i + 1 + t)).status = 1 := by
        constructor
        · intro hs t ht
          have hnext := hs (t + 1) (by omega)
          rwa [show i + (t + 1) = i + 1 + t by omega] at hnext
        · intro hs t ht
          cases t with
          | zero => exact h
          | succ t =>
            have hnext := hs t (by omega)
            rwa [show i + 1 + t = i + (t + 1) by omega] at hnext
      simp only [hall, List.range_succ_eq_map, List.map_cons, List.map_map, List.append_assoc,
        List.singleton_append, Nat.add_zero]
      have hshift : ∀ t, i + 1 + t = i + (t + 1) := by
        intro t
        omega
      simp only [hshift]
      rfl
    · rw [if_pos h]
      refine ⟨i + 1, ?_⟩
      rw [if_neg]
      · rfl
      · intro hs
        exact h (hs 0 (by omega))

/-- What becomes of a reply: the three kinds of replies that are skipped are those that are not
valid. -/
theorem exec_reply (n ich : ℕ) (s : ℤ) (rpm : ℕ → Double) (buf : List UInt8) (w : ℕ × ℕ) :
    exec (answers O) (if byte buf 0 = 32 ∧ byte buf 1 = 0 then
        read_channels T fd n_fan n (ich + 1) s rpm
      else if byte buf 0 ≠ 102 ∨ byte buf 3 ≠ 61 then
        (printf "Bad tachometer data for ich=%d, buffer `%s'   " ich buf).bind fun _ =>
          read_channels T fd n_fan n (ich + 1) s rpm
      else if (scanned T buf).1 ≠ 2 ∨ (scanned T buf).2.1 ≠ ich + 1 then
        (printf "Unparseable tachometer data for ich=%d, buffer `%s'\n" ich buf).bind fun _ =>
          read_channels T fd n_fan n (ich + 1) s rpm
      else read_channels T fd n_fan n (ich + 1) (s + 1)
        (Function.update rpm ich (.fin (scanned T buf).2.2))) w =
    exec (answers O) (if Valid T ich buf then
        read_channels T fd n_fan n (ich + 1) (s + 1) (Function.update rpm ich (speed T buf))
      else read_channels T fd n_fan n (ich + 1) s rpm) w := by
  by_cases hblank : byte buf 0 = 32 ∧ byte buf 1 = 0
  · rw [if_pos hblank, if_neg]
    rintro ⟨hf, -⟩
    rw [hblank.1] at hf
    exact absurd hf (by decide)
  rw [if_neg hblank]
  by_cases hshape : byte buf 0 ≠ 102 ∨ byte buf 3 ≠ 61
  · rw [if_pos hshape, if_neg]
    · rfl
    · rintro ⟨hf, heq, -⟩
      rcases hshape with h | h
      · exact h hf
      · exact h heq
  rw [if_neg hshape]
  rw [not_or, not_not, not_not] at hshape
  by_cases hscan : (scanned T buf).1 ≠ 2 ∨ (scanned T buf).2.1 ≠ ich + 1
  · rw [if_pos hscan, if_neg]
    · rfl
    · rintro ⟨-, -, htwo, hich⟩
      rcases hscan with h | h
      · exact h htwo
      · exact h hich
  · rw [if_neg hscan]
    rw [not_or, not_not, not_not] at hscan
    rw [if_pos ⟨hshape.1, hshape.2, hscan.1, hscan.2⟩]
    rfl

/-- **One channel**: a transfer that fails ends the loop, else the reply is merged if it is valid. -/
theorem exec_channel (T : Target) (O : Outcomes) (fd n_fan : ℤ) (n ich i : ℕ) (s : ℤ)
    (rpm : ℕ → Double) :
    ∃ i', (¬ (O.channel ich).Complete →
      exec (answers O) (read_channels T fd n_fan (n + 1) ich s rpm) (ich, i) =
        some (⟨if (O.channel ich).command ≠ 2 then -2 else -3, rpm⟩, (ich + 1, i'))) ∧
    ((O.channel ich).Complete →
      exec (answers O) (read_channels T fd n_fan (n + 1) ich s rpm) (ich, i) =
        exec (answers O) (if Valid T ich (O.channel ich).reply then
          read_channels T fd n_fan n (ich + 1) (s + 1)
            (Function.update rpm ich (speed T (O.channel ich).reply))
          else read_channels T fd n_fan n (ich + 1) s rpm) (ich + 1, i')) := by
  obtain ⟨i', hbytes⟩ := exec_read_bytes O fd ich 8 0 []
  simp only [Nat.zero_add, List.nil_append] at hbytes
  rw [read_channels]
  simp only [bind_eq, pure_eq, write, nanosleep, vis_bind, ret_bind, exec_vis, answers,
    Option.bind_some]
  by_cases hcommand : (O.channel ich).command = 2
  · simp only [hcommand, ne_eq, not_true_eq_false, if_false, exec_vis, exec_bind, answers,
      Option.bind_some, hbytes]
    refine ⟨i', fun hbad => ?_, fun hok => ?_⟩
    · rw [if_neg fun hreads => hbad ⟨hcommand, hreads⟩]
      rfl
    · rw [if_pos hok.2]
      exact exec_reply n ich s rpm (O.channel ich).reply (ich + 1, i')
  · simp only [hcommand, ne_eq, not_false_eq_true, if_true, exec_ret]
    exact ⟨0, fun _ => rfl, fun hok => absurd hok.1 hcommand⟩

/-- The first channel from `m` on that is not complete is `k`, or all channels before `n` are and `k`
is `n`. -/
structure FirstBad (O : Outcomes) (m n k : ℕ) : Prop where
  start : m ≤ k
  stop : k ≤ n
  before : ∀ j, m ≤ j → j < k → (O.channel j).Complete
  bad : k < n → ¬ (O.channel k).Complete

/-- The number of valid replies among `n` channels from `ich` on. -/
def countValid (T : Target) (O : Outcomes) (ich n : ℕ) : ℕ :=
  (List.range' ich n).countP fun j => decide (Valid T j (O.channel j).reply)

theorem countValid_succ (T : Target) (O : Outcomes) (ich n : ℕ) :
    countValid T O ich (n + 1) =
      (if Valid T ich (O.channel ich).reply then 1 else 0) + countValid T O (ich + 1) n := by
  unfold countValid
  rw [List.range'_succ, List.countP_cons, Nat.add_comm]
  by_cases h : Valid T ich (O.channel ich).reply <;> simp [h]

/-- The speeds after the channels from `ich` up to `k`. -/
def merged (T : Target) (O : Outcomes) (ich k : ℕ) (rpm : ℕ → Double) (j : ℕ) : Double :=
  if (ich ≤ j ∧ j < k) ∧ Valid T j (O.channel j).reply then speed T (O.channel j).reply else rpm j

theorem merged_succ {ich k : ℕ} (h : ich < k) (rpm : ℕ → Double) :
    merged T O (ich + 1) k (if Valid T ich (O.channel ich).reply then
      Function.update rpm ich (speed T (O.channel ich).reply) else rpm) = merged T O ich k rpm := by
  funext j
  unfold merged
  by_cases hj : j = ich
  · subst hj
    by_cases hvalid : Valid T j (O.channel j).reply <;> simp [hvalid, h]
  · have hiff : (ich + 1 ≤ j ∧ j < k) ↔ (ich ≤ j ∧ j < k) := by omega
    by_cases hvalid : Valid T ich (O.channel ich).reply
    · simp only [if_pos hvalid, Function.update_of_ne hj, hiff]
    · simp only [if_neg hvalid, hiff]

/-- **The loop**, from channel `ich` with `s` successes so far. -/
theorem exec_channels (T : Target) (O : Outcomes) (fd n_fan : ℤ) (n ich i : ℕ) (s : ℤ)
    (rpm : ℕ → Double) :
    ∃ r w k, exec (answers O) (read_channels T fd n_fan n ich s rpm) (ich, i) = some (r, w) ∧
      FirstBad O ich (ich + n) k ∧ r.rpm = merged T O ich k rpm ∧
      r.status = if k < ich + n then (if (O.channel k).command ≠ 2 then -2 else -3)
        else if s + countValid T O ich n ≤ n_fan.tdiv 2 then -4 else 0 := by
  induction n generalizing ich i s rpm with
  | zero =>
    refine ⟨⟨if s ≤ n_fan.tdiv 2 then -4 else 0, rpm⟩, (ich, i), ich, ?_, ?_, ?_, ?_⟩
    · rw [read_channels]
      split <;> rfl
    · exact ⟨le_refl _, le_refl _, fun j h h' => by omega, fun h => absurd h (lt_irrefl _)⟩
    · funext j
      have hnot : ¬ (ich ≤ j ∧ j < ich) := by omega
      simp [merged, hnot]
    · simp [countValid]
  | succ n ih =>
    obtain ⟨i', hbad, hok⟩ := exec_channel T O fd n_fan n ich i s rpm
    by_cases hcomplete : (O.channel ich).Complete
    · -- the channel is merged, and the others are by induction
      have hnext : ∃ s' rpm', exec (answers O) (read_channels T fd n_fan (n + 1) ich s rpm) (ich, i) =
            exec (answers O) (read_channels T fd n_fan n (ich + 1) s' rpm') (ich + 1, i') ∧
          s' = s + (if Valid T ich (O.channel ich).reply then 1 else 0) ∧
          rpm' = if Valid T ich (O.channel ich).reply then
            Function.update rpm ich (speed T (O.channel ich).reply) else rpm := by
        rw [hok hcomplete]
        split_ifs
        · exact ⟨s + 1, _, rfl, rfl, rfl⟩
        · exact ⟨s, rpm, rfl, by omega, rfl⟩
      obtain ⟨s', rpm', hexec, rfl, rfl⟩ := hnext
      obtain ⟨r, w, k, hrest, hfirst, hrpm, hstatus⟩ := ih (ich + 1) i' _ _
      have hk : ich < k := hfirst.start
      refine ⟨r, w, k, hexec.trans hrest, ⟨by omega, ?_, fun j hj hjk => ?_, fun hlt => ?_⟩, ?_, ?_⟩
      · have := hfirst.stop
        omega
      · rcases Nat.eq_or_lt_of_le hj with rfl | hlt
        · exact hcomplete
        · exact hfirst.before j hlt hjk
      · exact hfirst.bad (by omega)
      · rw [hrpm, merged_succ hk]
      · rw [hstatus, countValid_succ, show ich + 1 + n = ich + (n + 1) by omega]
        push_cast
        rw [add_assoc]
    · refine ⟨_, _, ich, hbad hcomplete, ?_, ?_, ?_⟩
      · exact ⟨le_refl _, by omega, fun j h h' => by omega, fun _ => hcomplete⟩
      · funext j
        have hnot : ¬ (ich ≤ j ∧ j < ich) := by omega
        simp [merged, hnot]
      · have hlt : ich < ich + (n + 1) := by omega
        simp only [hlt, if_true]

end Loop

/-! ### The merge -/

/-- **The documented merge.**  A negative status of the `ioctl` is returned and nothing is merged.  Else
the speeds of the valid channels before the first channel `k` that fails are merged, and the status says
whether there is such a channel, or whether more than half of the channels are valid. -/
def Merge (T : Target) (O : Outcomes) (n_fan : ℕ) (rpm : ℕ → Double) (r : FanReply) : Prop :=
  (O.ioctl < 0 → r.status = O.ioctl ∧ r.rpm = rpm) ∧
  (0 ≤ O.ioctl → ∃ k, FirstBad O 0 n_fan k ∧
    (∀ j, r.rpm j = if j < k ∧ Valid T j (O.channel j).reply then speed T (O.channel j).reply
      else rpm j) ∧
    r.status = if k < n_fan then (if (O.channel k).command ≠ 2 then -2 else -3)
      else if n_fan < 2 * countValid T O 0 n_fan then 0 else -4)

theorem exec_fan_speeds (T : Target) (O : Outcomes) (fd : ℤ) (n_fan : ℕ) (rpm : ℕ → Double) :
    exec (answers O) (read_fan_speeds T fd rpm n_fan) (0, 0) =
      exec (answers O) (if O.ioctl < 0 then ret ⟨O.ioctl, rpm⟩
        else read_channels T fd n_fan n_fan 0 0 rpm) (0, 0) := by
  unfold read_fan_speeds protected_section
  simp only [mutex_lock, mutex_unlock, ioctl, bind_eq, pure_eq, vis_bind, ret_bind, exec_vis,
    exec_bind, answers, Option.bind_some, Int.toNat_natCast, exec_ret]
  exact Option.bind_fun_some _

/-- **`read_fan_speeds` is the documented merge**, for every sequence of outcomes. -/
theorem read_fan_speeds_merges (T : Target) (O : Outcomes) (fd : ℤ) (n_fan : ℕ)
    (rpm : ℕ → Double) :
    ∃ r w, exec (answers O) (read_fan_speeds T fd rpm n_fan) (0, 0) = some (r, w) ∧
      Merge T O n_fan rpm r := by
  rw [exec_fan_speeds]
  rcases lt_or_ge O.ioctl 0 with hneg | hnn
  · rw [if_pos hneg]
    exact ⟨⟨O.ioctl, rpm⟩, (0, 0), rfl, fun _ => ⟨rfl, rfl⟩, fun h => absurd hneg (not_lt.mpr h)⟩
  · rw [if_neg (not_lt.mpr hnn)]
    obtain ⟨r, w, k, hexec, hfirst, hrpm, hstatus⟩ := exec_channels T O fd n_fan n_fan 0 0 0 rpm
    rw [Nat.zero_add] at hfirst hstatus
    refine ⟨r, w, hexec, fun h => absurd h (not_lt.mpr hnn), fun _ => ⟨k, hfirst, fun j => ?_, ?_⟩⟩
    · rw [hrpm]
      simp [merged]
    · rw [hstatus, Int.tdiv_eq_ediv_of_nonneg (by omega)]
      have hhalf : ((0 : ℤ) + countValid T O 0 n_fan ≤ (n_fan : ℤ) / 2) ↔
          ¬ n_fan < 2 * countValid T O 0 n_fan := by omega
      simp only [hhalf, ite_not]

end RackmonIoc.Fan
