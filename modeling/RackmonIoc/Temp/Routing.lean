import RackmonIoc.Bus.Box

/-!
# Routing

The number `n` of a record stands for the probe with slave address `0x48 + n/8` behind stub `n%8`.
Over sequential runs that initialise records and then process them, with any failures, the transfers of
`read_ai` and `write_ao` always go to the probe of the record.  The read-back of `init_record_ao` does
so only for number 0 behind pins that are all low: it neither splits the number nor selects the stub.
-/

namespace RackmonIoc.Temp

open Program CLib Base Driver Bus Prog

/-- The transfers go to the probe with number `n`. -/
def Routed (n : ℤ) (w : Box) : Prop := w.slave = 0x48 + n / 8 ∧ mux_holds w.pin (n % 8)

/-- Every transfer made for a record in a run of the calls goes to the probe of the record. -/
def AllRouted (T : Target) (cs : List IocCall) (s : Ioc) (w : Box) : Prop :=
  ∀ c o w', Issues (Env.tag boxEnv) (bus_session T cs s) w (c, o) w' → IsTransfer o →
    ∀ n ch, s.accepted T c.record = some (n, ch) → Routed n w'

/-! ### The invariant -/

/-- The private data of a record with a `dpvt` has the number of its text. -/
structure Numbered (T : Target) (s₀ s : Ioc) : Prop where
  text : s.text = s₀.text
  entry : ∀ r i, s.dpvt r = some i → ∃ n ch, s₀.accepted T r = some (n, ch) ∧ i % 64 = n ∧
    (s.globals.private_data i).address = n

variable {T : Target}

theorem Numbered.accepted {s₀ s : Ioc} (h : Numbered T s₀ s) (r : Rec) :
    s.accepted T r = s₀.accepted T r := by
  rw [accepted_record, accepted_record, h.text]

theorem Numbered.same {s₀ s s' : Ioc} (h : Numbered T s₀ s) (hs : SameDriver s s') :
    Numbered T s₀ s' where
  text := hs.text.trans h.text
  entry := by
    rw [hs.dpvt, hs.globals]
    exact h.entry

/-- Storing a number in its slot leaves every other slot of the same number with that number. -/
theorem Numbered.initialised {s₀ s s' : Ioc} {r : Rec} {fd : ℤ} (h : Numbered T s₀ s)
    (hs : Initialised T s r fd s') : Numbered T s₀ s' := by
  rcases hs with ⟨ht, hg, hd, -⟩ | ⟨ht, hg, hd, -, hacc⟩
  · refine ⟨ht.trans h.text, ?_⟩
    rw [hd, hg]
    exact h.entry
  · rename_i n ch
    obtain ⟨hn0, hn64⟩ := accepted_link_range hacc
    refine ⟨ht.trans h.text, fun r' i hi => ?_⟩
    rw [hd] at hi
    rw [hg]
    have hother : ∀ m, (s.globals.private_data i).address = m → i % 64 = m →
        ((({ s.globals with global_fd_i2c := fd } : Globals).store n ch).private_data i).address
          = m := by
      intro m hm him
      by_cases hslot : i = slot n ch
      · subst hslot
        rw [slot_emod hn0 hn64] at him
        rw [← him, Globals.store_self]
      · rw [← hm, Globals.store_of_ne _ _ _ hslot]
    by_cases hr : r' = r
    · subst hr
      rw [Function.update_self, Option.some.injEq] at hi
      refine ⟨n, ch, (h.accepted r') ▸ hacc, hi ▸ slot_emod hn0 hn64 ch, ?_⟩
      rw [← hi, Globals.store_self]
    · rw [Function.update_of_ne hr] at hi
      obtain ⟨m, ch', hacc', him, hm⟩ := h.entry r' i hi
      exact ⟨m, ch', hacc', him, hother m hm him⟩

/-! ### The guard of one operation -/

/-- The transfers of an operation of the device support that is made for the number `n`. -/
def RoutesTo (T : Target) (n : ℤ) (w : Box) (o : DevOp) : Prop :=
  wp boxEnv (fun w o => IsTransfer o → Routed n w) (fun _ _ => True) (expand T o) w

/-- An operation that is no call on a probe transfers nothing. -/
theorem routesTo_of_not_probe {n : ℤ} {w : Box} {o : DevOp}
    (h : match o with
      | .read_temp_ds75 _ _ _ | .access_ds75_details _ _ _ _ _ _ => False
      | _ => True) : RoutesTo T n w o := by
  cases o <;> first | exact h.elim | exact ⟨nofun, fun _ _ _ => trivial⟩

theorem routesTo_probe {n fd addr : ℤ} {w : Box} {o : DevOp} (ho : ProbeCall fd addr o)
    (hslave : probe_slave addr o = 0x48 + n / 8) (hmux : mux_holds w.pin (n % 8)) :
    RoutesTo T n w o := by
  refine wp_mono (fun w' o hr ht => ?_) (fun _ _ _ => trivial) (wp_slaveSection (expand_section ho) w)
  obtain ⟨hs, hp⟩ := hr ht
  exact ⟨hs.trans hslave, hp ▸ hmux⟩

/-- A split number addresses the right slave, whether the callee masks it or not. -/
theorem probe_slave_split {n fd : ℤ} (h0 : 0 ≤ n) (h64 : n < 64) {o : DevOp}
    (ho : ProbeCall fd (n / 8) o) : probe_slave (n / 8) o = 0x48 + n / 8 := by
  have h8 : n / 8 % 8 = n / 8 := by omega
  have h48 : I2C_DS75_ADDR_BASE = 0x48 := rfl
  cases o with
  | read_temp_ds75 fd addr t => simp only [probe_slave, h8, h48]
  | access_ds75_details fd addr a b c m => simp only [probe_slave, h48]
  | _ => exact ho.elim

/-! ### Processings -/

/-- **A processing is routed.** -/
theorem process_routed {c : IocCall} (hc : c.is_init = false) {s₀ s : Ioc} (h : Numbered T s₀ s)
    (w : Box) :
    wp boxEnv (fun w o => IsTransfer o → ∀ n ch, s₀.accepted T c.record = some (n, ch) → Routed n w)
      (fun s' _ => Numbered T s₀ s') ((c.prog T s).interp (expand T)) w := by
  rw [wp_through]
  rcases hi : s.dpvt c.record with _ | i
  · refine wp_process (K := fun _ => True) (R := fun _ => True) hc
      (fun _ => ⟨nofun, fun _ _ _ => trivial⟩) ?_ ?_ (fun _ _ => trivial)
      (fun _ _ _ hs => h.same hs)
    · intro i' hi'
      rw [hi] at hi'
      exact nomatch hi'
    · intro i' hi'
      rw [hi] at hi'
      exact nomatch hi'
  · obtain ⟨n, ch, hacc, -, hn⟩ := h.entry c.record i hi
    obtain ⟨h0, h64⟩ := accepted_link_range hacc
    -- the guard asks for the number that the record's own text has
    have hguard : ∀ w o, RoutesTo T n w o → wp boxEnv (fun w o => IsTransfer o → ∀ n ch,
        s₀.accepted T c.record = some (n, ch) → Routed n w) (fun _ _ => True) (expand T o) w := by
      intro w o hr
      refine wp_mono (fun w' o' hw ht n' ch' hacc' => ?_) (fun _ _ h => h) hr
      rw [hacc, Option.some.injEq, Prod.mk.injEq] at hacc'
      exact hacc'.1 ▸ hw ht
    refine wp_process (K := fun w' => mux_holds w'.pin (n % 8)) (R := fun _ => True) hc
      (fun hnone => ?_) (fun i' hi' => ?_) (fun i' hi' w' o ho hK => ?_) (fun _ _ => trivial)
      (fun _ _ _ hs => h.same hs)
    · rw [hi] at hnone
      exact nomatch hnone
    · rw [hi, Option.some.injEq] at hi'
      subst hi'
      rw [hn, Int.tmod_eq_emod_of_nonneg h0]
      have hgpio : ∀ w gpio state, RoutesTo T n w (.gpio_write gpio state) :=
        fun w gpio state => routesTo_of_not_probe (o := .gpio_write gpio state) trivial
      refine wp_conseq (wp_select_probe fun w gpio state => hguard w _ (hgpio w gpio state))
        fun sel w' hsel => ⟨trivial, fun hs => ?_⟩
      rcases hsel.2.2 with hneg | ⟨-, hmux⟩
      · omega
      · exact hmux
    · rw [hi, Option.some.injEq] at hi'
      subst hi'
      rw [hn, Int.tdiv_eq_ediv_of_nonneg h0] at ho
      refine ⟨hguard w' o (routesTo_probe ho (probe_slave_split h0 h64 ho) hK), fun r w'' he => ?_⟩
      show mux_holds w''.pin (n % 8)
      rw [(boxDev_probe ho he).pin]
      exact hK

/-! ### Initialisations -/

/-- **An initialisation keeps the pins**, and stores the number of the text. -/
theorem init_keeps {G : Box → DevOp → Prop} {c : IocCall} (hc : c.is_init = true) {s₀ s : Ioc}
    (h : Numbered T s₀ s) {w : Box}
    (hopen : ∀ w bus, G w (.open_i2c_bus bus)) (hmessage : ∀ w st m, G w (.recGblRecordError st m))
    (hnull : s₀.text c.record = none → ∀ w, G w (.fault .null_text))
    (hdetail : ∀ fd w' n ch k, w'.pin = w.pin → c.record = .ao k →
      s₀.accepted T c.record = some (n, ch) → DetailLetter ch →
      ∀ a b cf, G w' (.access_ds75_details fd n a b cf 'r')) :
    wp (boxDev T) G (fun s' w' => Numbered T s₀ s' ∧ w'.pin = w.pin) (c.prog T s) w := by
  have hopened : ∀ fd w', BusOpened (boxDev T) s.globals w fd w' → w' = w := by
    intro fd w' hb
    unfold BusOpened at hb
    split at hb
    · exact boxDev_open hb
    · exact hb.2
  refine wp_init (R := fun _ w' => w'.pin = w.pin) hc
    (fun w st m => ⟨hmessage w st m, fun r w' he => boxDev_message he⟩) (fun _ => hopen w 2)
    (fun fd w' _ _ ht => hnull (h.text ▸ ht) w') (fun fd w' hb => by rw [hopened fd w' hb])
    ?_ (fun fd w' s' hw hs => ⟨h.initialised hs, hw⟩)
  intro fd w' n ch k hb _ hk hacc hd a b cf
  rw [hopened fd w' hb]
  have hprobe : ProbeCall fd n (.access_ds75_details fd n a b cf 'r') := ⟨rfl, rfl⟩
  exact ⟨hdetail fd w n ch k rfl hk (h.accepted c.record ▸ hacc) hd a b cf,
    fun r w'' he => (boxDev_probe hprobe he).pin⟩

theorem init_routed {c : IocCall} (hc : c.is_init = true) {s₀ s : Ioc} (h : Numbered T s₀ s)
    {w : Box} (hzero : ∀ k n ch, c.record = .ao k → s₀.accepted T c.record = some (n, ch) →
      DetailLetter ch → n = 0 ∧ mux_holds w.pin 0) :
    wp boxEnv (fun w o => IsTransfer o → ∀ n ch, s₀.accepted T c.record = some (n, ch) → Routed n w)
      (fun s' w' => Numbered T s₀ s' ∧ w'.pin = w.pin) ((c.prog T s).interp (expand T)) w := by
  rw [wp_through]
  refine init_keeps hc h (fun _ _ => ⟨nofun, fun _ _ _ => trivial⟩)
    (fun _ _ _ => ⟨nofun, fun _ _ _ => trivial⟩) (fun _ _ => ⟨nofun, fun _ _ _ => trivial⟩) ?_
  intro fd w' n ch k hw hk hacc hd a b cf
  obtain ⟨rfl, hmux⟩ := hzero k n ch hk hacc hd
  have hprobe : ProbeCall fd 0 (.access_ds75_details fd 0 a b cf 'r') := ⟨rfl, rfl⟩
  have hr : RoutesTo T 0 w' (.access_ds75_details fd 0 a b cf 'r') :=
    routesTo_probe hprobe rfl (hw ▸ hmux)
  refine wp_mono (fun w'' o' hw' ht n' ch' hacc' => ?_) (fun _ _ h => h) hr
  rw [hacc, Option.some.injEq, Prod.mk.injEq] at hacc'
  exact hacc'.1 ▸ hw' ht

/-! ### The read-back is reached -/

theorem issues_read_detail {E : Env DevSig Box} {fd addr : ℤ} {what : Char} (h : DetailLetter what)
    (val : Double) (cfg₀ : UInt8) (w : Box) :
    ∃ a b cf, (a.isSome ∨ b.isSome ∨ cf.isSome) ∧ Issues E (read_detail fd addr what val cfg₀) w
      (.access_ds75_details fd addr a b cf 'r') w := by
  rcases h with rfl | rfl | rfl
  · exact ⟨some val, none, none, .inl rfl, _, .refl _ _⟩
  · exact ⟨none, some val, none, .inr (.inl rfl), _, .refl _ _⟩
  · exact ⟨none, none, some cfg₀, .inr (.inr rfl), _, .refl _ _⟩

/-- A read of the details can get as far as a transfer on the slave of its address. -/
theorem issues_access_details {fd addr : ℤ} {a b : Option Double} {cf : Option UInt8}
    (h : a.isSome ∨ b.isSome ∨ cf.isSome) (w : Box) :
    ∃ buf w', Issues boxEnv (access_ds75_details T fd addr a b cf 'r') w (.write fd buf) w' ∧
      w'.slave = 0x48 + addr ∧ w'.pin = w.pin := by
  have hlock : boxEnv w .mutex_lock () w := rfl
  have hioctl : boxEnv w (.ioctl fd (0x48 + addr)) (0 : ℤ) { w with slave := 0x48 + addr } := by
    simp [boxEnv]
  rcases a with _ | a
  · rcases b with _ | b
    · rcases cf with _ | cf
      · simp at h
      · exact ⟨[1], _, ⟨_, .step hlock (.step hioctl (.refl _ _))⟩, rfl, rfl⟩
    · exact ⟨[2], _, ⟨_, .step hlock (.step hioctl (.refl _ _))⟩, rfl, rfl⟩
  · exact ⟨[3], _, ⟨_, .step hlock (.step hioctl (.refl _ _))⟩, rfl, rfl⟩

/-- An accepted text is stored, where the bus can be opened. -/
theorem returns_init_record_common {g : Globals} {prec : DbCommon} {inp : Option (List Char)}
    {n : ℤ} {ch : Char} (hacc : accepted_link T inp = some (n, ch)) (w : Box) :
    ∃ fd, Returns (boxDev T) (init_record_common T g prec inp) w
      (0, { g with global_fd_i2c := fd }.store n ch, { prec with dpvt := some (slot n ch) }) w := by
  obtain ⟨text, rfl, ht⟩ := Option.bind_eq_some_iff.mp hacc
  unfold init_record_common
  by_cases hg : g.global_fd_i2c < 0
  · have hopen : boxDev T w (.open_i2c_bus 2) (0 : ℤ) w := returns_vis.mpr ⟨0, w, rfl, .refl _ _⟩
    refine ⟨0, ?_⟩
    rw [if_pos hg]
    refine .step hopen ?_
    show Steps _ (init_record_text T { g with global_fd_i2c := 0 } prec (some text)) _ _ _
    rw [init_record_text_accepted ht]
    exact .refl _ _
  · refine ⟨g.global_fd_i2c, ?_⟩
    rw [if_neg hg, init_record_text_accepted ht]
    exact .refl _ _

/-- **The read-back of an ao record** can get as far as a transfer on the slave `0x48 + n`, with the
pins as they were. -/
theorem issues_init_record_ao {s : Ioc} {k : ℕ} {n : ℤ} {ch : Char}
    (hacc : s.accepted T (.ao k) = some (n, ch)) (hd : DetailLetter ch) (cfg₀ : UInt8) (w : Box) :
    ∃ fd buf w', Issues boxEnv (((IocCall.init_record_ao k cfg₀).prog T s).interp (expand T)) w
      (.write fd buf) w' ∧ w'.slave = 0x48 + n ∧ w'.pin = w.pin := by
  obtain ⟨fd, hcommon⟩ : ∃ fd, Returns (boxDev T)
      (init_record_common T s.globals (s.ao k).toDbCommon (s.ao k).out_text) w
      (0, { s.globals with global_fd_i2c := fd }.store n ch,
        { (s.ao k).toDbCommon with dpvt := some (slot n ch) }) w :=
    returns_init_record_common hacc w
  obtain ⟨a, b, cf, hsome, hissue⟩ : ∃ a b cf, (a.isSome ∨ b.isSome ∨ cf.isSome) ∧
      Issues (boxDev T) (read_detail fd n ch (s.ao k).val cfg₀) w
        (.access_ds75_details fd n a b cf 'r') w :=
    issues_read_detail hd (s.ao k).val cfg₀ w
  obtain ⟨buf, w', hwrite, hslave, hpin⟩ : ∃ buf w',
      Issues boxEnv (expand T (.access_ds75_details fd n a b cf 'r')) w (.write fd buf) w' ∧
        w'.slave = 0x48 + n ∧ w'.pin = w.pin :=
    issues_access_details hsome w
  have hreach : Issues (boxDev T) ((IocCall.init_record_ao k cfg₀).prog T s) w
      (.access_ds75_details fd n a b cf 'r') w := by
    refine issues_bind_left (issues_bind_right hcommon ?_)
    have hne : ch ≠ ' ' := by rcases hd with rfl | rfl | rfl <;> decide
    simp only [private_entry, pure_eq, bind_eq, ret_bind, Globals.store_self, ne_eq,
      not_true_eq_false, if_false, if_neg hne]
    exact issues_bind_left hissue
  exact ⟨fd, buf, w', issues_interp hreach hwrite, hslave, hpin⟩

/-! ### Runs -/

section Runs

variable {s : Ioc} {inits procs : List IocCall}

theorem Numbered.start (hnew : ∀ r, s.dpvt r = none) : Numbered T s s where
  text := rfl
  entry r i hi := by
    rw [hnew r] at hi
    exact nomatch hi

/-- Initialisations over accepted texts can all go through, and leave the pins. -/
theorem inits_return (hi : ∀ c ∈ inits, c.is_init = true)
    (hacc : ∀ c ∈ inits, ∃ n ch, s.accepted T c.record = some (n, ch))
    (hnew : ∀ r, s.dpvt r = none) (w : Box) :
    ∃ s' w', Returns (Env.tag boxEnv) (bus_session T inits s) w s' w' ∧ Numbered T s s' ∧
      w'.pin = w.pin := by
  have hrun : wp (Env.tag boxEnv) (fun w o => ∃ r w', Env.tag boxEnv w o r w')
      (fun s' w' => Numbered T s s' ∧ w'.pin = w.pin) (bus_session T inits s) w := by
    refine wp_session (fun c hc s₁ w₁ hs₁ => ?_) ⟨Numbered.start hnew, rfl⟩
    have hanswer : ∀ w₁ (o : DevOp), (∀ f, o ≠ .fault f) → wp boxEnv
        (fun w o => ∃ r w', Env.tag boxEnv w (c, o) r w') (fun _ _ => True) (expand T o) w₁ :=
      fun w₁ o ho => expand_answers w₁ ho
    refine wp_through.mpr (wp_conseq (init_keeps (hi c hc) hs₁.1 ?_ ?_ ?_ ?_)
      fun s' w' h => ⟨h.1, h.2.trans hs₁.2⟩)
    · exact fun w bus => hanswer w (.open_i2c_bus bus) (by simp)
    · exact fun w st m => hanswer w (.recGblRecordError st m) (by simp)
    · intro hnone
      obtain ⟨n, ch, hsome⟩ := hacc c hc
      rw [accepted_record, hnone] at hsome
      exact nomatch hsome
    · exact fun fd w' n ch k _ _ _ _ a b cf => hanswer w' (.access_ds75_details fd n a b cf 'r') (by simp)
  exact returns_of_wp hrun

/-- **Where every transfer is routed.**  Runs of initialisations over accepted texts and then of
processings make all their transfers on the probe of the record exactly when every ao record that is
read back has number 0, behind pins that are low from the start. -/
theorem all_routed_iff (hi : ∀ c ∈ inits, c.is_init = true) (hp : ∀ c ∈ procs, c.is_init = false)
    (hacc : ∀ c ∈ inits ++ procs, ∃ n ch, s.accepted T c.record = some (n, ch))
    (hnew : ∀ r, s.dpvt r = none) (w : Box) :
    AllRouted T (inits ++ procs) s w ↔
      ∀ k cfg₀ n ch, .init_record_ao k cfg₀ ∈ inits → s.accepted T (.ao k) = some (n, ch) →
        DetailLetter ch → n = 0 ∧ mux_holds w.pin 0 := by
  constructor
  · intro hall k cfg₀ n ch hmem hk hd
    obtain ⟨pre, post, rfl⟩ := List.append_of_mem hmem
    have hi' : ∀ c ∈ pre, c.is_init = true := fun c hc => hi c (by simp [hc])
    have hacc' : ∀ c ∈ pre, ∃ n ch, s.accepted T c.record = some (n, ch) :=
      fun c hc => hacc c (by simp [hc])
    obtain ⟨s₁, w₁, hpre, hs₁, hpin₁⟩ := inits_return hi' hacc' hnew w
    obtain ⟨fd, buf, w', hissue, hslave, hpin⟩ :=
      issues_init_record_ao ((hs₁.accepted (.ao k)).trans hk) hd cfg₀ w₁
    have hrun : Issues (Env.tag boxEnv)
        (bus_session T (pre ++ .init_record_ao k cfg₀ :: (post ++ procs)) s) w
        (.init_record_ao k cfg₀, .write fd buf) w' := issues_session hpre hissue
    rw [← List.cons_append, ← List.append_assoc] at hrun
    obtain ⟨hr, hmux⟩ := hall _ _ _ hrun trivial n ch hk
    obtain ⟨h0, -⟩ := accepted_link_range hk
    have hn : n = 0 := by omega
    refine ⟨hn, ?_⟩
    rw [hpin, hpin₁, hn] at hmux
    exact hmux
  · intro hzero c o w' hissue ht
    have hrun : wp (Env.tag boxEnv) (fun w o => IsTransfer o.2 → ∀ n ch,
        s.accepted T o.1.record = some (n, ch) → Routed n w) (fun s' _ => Numbered T s s')
        (bus_session T (inits ++ procs) s) w := by
      unfold bus_session
      rw [session_append, wp_bind]
      refine wp_conseq (wp_session (I := fun s' w' => Numbered T s s' ∧ w'.pin = w.pin)
        (fun c hc s₁ w₁ hs₁ => ?_) ⟨Numbered.start hnew, rfl⟩) fun s₁ w₁ hs₁ => ?_
      · refine wp_conseq (init_routed (hi c hc) hs₁.1 ?_) fun s' w' h => ⟨h.1, h.2.trans hs₁.2⟩
        intro k n ch hk hkacc hd
        rcases c with k' | ⟨k', cfg₀⟩ | ⟨k', cfg₀⟩ | ⟨k', val⟩
        · exact nomatch hk
        · rw [hs₁.2]
          exact hzero k' cfg₀ n ch hc hkacc hd
        · exact nomatch hk
        · exact nomatch hi _ hc
      · exact wp_session (fun c hc s₂ w₂ hs₂ => process_routed (hp c hc) hs₂ w₂) hs₁.1
    exact wp_issues hrun hissue ht

end Runs

/-- Probe 5 is read and the config byte of probe 0 is written, both records being accepted. -/
theorem all_routed_zero :
    AllRouted ⟨false, fun _ => 0, id⟩
      ([.init_record_ai 0, .init_record_ao 0 0] ++ [.read_ai 0 0, .write_ao 0 96])
      ⟨Globals.init, fun _ => { (default : AiRecord) with inp_text := some ['5'] },
        fun _ => { (default : AoRecord) with out_text := some ['0', ' ', 'C'] }⟩
      ⟨fun _ => false, 0, fun _ _ => ⟨0, 0, fun _ => (0, 0)⟩⟩ := by
  let T : Target := ⟨false, fun _ => 0, id⟩
  let s : Ioc := ⟨Globals.init, fun _ => { (default : AiRecord) with inp_text := some ['5'] },
    fun _ => { (default : AoRecord) with out_text := some ['0', ' ', 'C'] }⟩
  have hai : s.accepted T (.ai 0) = some (5, ' ') := by decide
  have hao : s.accepted T (.ao 0) = some (0, 'C') := by decide
  refine (all_routed_iff ?_ ?_ ?_ (fun r => by cases r <;> rfl) _).mpr ?_
  · simp [IocCall.is_init]
  · simp [IocCall.is_init]
  · intro c hc
    have hr : c.record = .ai 0 ∨ c.record = .ao 0 := by
      simp only [List.cons_append, List.nil_append, List.mem_cons, List.not_mem_nil, or_false] at hc
      rcases hc with rfl | rfl | rfl | rfl <;> simp [IocCall.record]
    rcases hr with hr | hr <;> rw [hr]
    · exact ⟨5, ' ', hai⟩
    · exact ⟨0, 'C', hao⟩
  · intro k cfg₀ n ch hmem hk _
    obtain ⟨rfl, rfl⟩ : k = 0 ∧ cfg₀ = 0 := by simpa using hmem
    have hn : (0, 'C') = (n, ch) := Option.some.inj (hao.symm.trans hk)
    exact ⟨(congrArg Prod.fst hn).symm, rfl, rfl, rfl⟩

/-- The read-back of a setpoint record with text "1 S" goes to the slave `0x49`, which is the address
of the probes 8 to 15. -/
theorem not_all_routed_one :
    ¬ AllRouted ⟨false, fun _ => 0, id⟩ [.init_record_ao 0 0]
      ⟨Globals.init, fun _ => default,
        fun _ => { (default : AoRecord) with out_text := some ['1', ' ', 'S'] }⟩
      ⟨fun _ => false, 0, fun _ _ => ⟨0, 0, fun _ => (0, 0)⟩⟩ := by
  intro hall
  let T : Target := ⟨false, fun _ => 0, id⟩
  let s : Ioc := ⟨Globals.init, fun _ => default,
    fun _ => { (default : AoRecord) with out_text := some ['1', ' ', 'S'] }⟩
  let w : Box := ⟨fun _ => false, 0, fun _ _ => ⟨0, 0, fun _ => (0, 0)⟩⟩
  have hacc : s.accepted T (.ao 0) = some (1, 'S') := by decide
  obtain ⟨fd, buf, w', hissue, hslave, -⟩ := issues_init_record_ao hacc (.inl rfl) 0 w
  have hrun : Issues (Env.tag boxEnv) (bus_session T ([] ++ .init_record_ao 0 0 :: []) s) w
      (.init_record_ao 0 0, .write fd buf) w' := issues_session (.refl _ _) hissue
  have hrouted : w'.slave = 0x48 + 1 / 8 := (hall _ _ _ hrun trivial 1 'S' hacc).1
  omega

end RackmonIoc.Temp
