import RackmonIoc.Temp.PrivateData

/-!
# Invalid accesses

Runs that initialise records, whatever their links and the outcomes of opening the bus, and then process
some.  `sscanf` gets a null text, or an unset `dpvt` is read, exactly when a link without a text is
initialised while the bus is open, or a record is processed that no initialisation has accepted.
-/

namespace RackmonIoc.Temp

open Program CLib Base Driver Prog

/-! ### The bus -/

/-- Any outcome of every operation, but that the `i`-th attempt to open the bus gives `f i`; the world is
the number of attempts. -/
def opens (f : ℕ → ℤ) : Env DevSig ℕ := fun w o r w' =>
  match o, r with
  | .open_i2c_bus _, r => r = f w ∧ w' = w + 1
  | _, _ => w' = w

/-- One of the first attempts, up to number `k`, succeeds. -/
def Opened (f : ℕ → ℤ) (k : ℕ) : Prop := ∃ j ≤ k, 0 ≤ f j

/-- After `m` initialisations: the descriptor, and the number of attempts where none has succeeded. -/
def BusState (f : ℕ → ℤ) (m : ℕ) (fd : ℤ) (w : ℕ) : Prop :=
  ((∃ j < m, 0 ≤ f j) ∧ 0 ≤ fd) ∨ ((∀ j < m, f j < 0) ∧ fd < 0 ∧ w = m)

variable {T : Target} {f : ℕ → ℤ}

theorem BusState.opened {m w w' : ℕ} {g : Globals} {fd : ℤ}
    (h : BusState f m g.global_fd_i2c w) (ho : BusOpened (opens f) g w fd w') :
    BusState f (m + 1) fd w' ∧ (0 ≤ fd ↔ Opened f m) := by
  unfold BusOpened at ho
  rcases h with ⟨⟨j, hj, hfj⟩, hg⟩ | ⟨hall, hg, rfl⟩
  · rw [if_neg (by omega)] at ho
    obtain ⟨rfl, -⟩ := ho
    refine ⟨.inl ⟨⟨j, by omega, hfj⟩, hg⟩, fun _ => ⟨j, by omega, hfj⟩, fun _ => hg⟩
  · rw [if_pos hg] at ho
    obtain ⟨rfl, rfl⟩ : fd = f w ∧ w' = w + 1 := ho
    by_cases hw : 0 ≤ f w
    · exact ⟨.inl ⟨⟨w, by omega, hw⟩, hw⟩, fun _ => ⟨w, le_refl w, hw⟩, fun _ => hw⟩
    · have hall' : ∀ j < w + 1, f j < 0 := by
        intro j hj
        by_cases hjw : j = w
        · subst hjw
          omega
        · exact hall j (by omega)
      refine ⟨.inr ⟨hall', by omega, rfl⟩, fun h => absurd h hw, ?_⟩
      rintro ⟨j, hj, hfj⟩
      have hneg := hall' j (by omega)
      omega

/-! ### One call -/

theorem init_crash {G : ℕ → DevOp → Prop} (hG : ∀ w o, NotFault o → G w o) {c : IocCall}
    (hc : c.is_init = true) {s : Ioc} {m w : ℕ} (hb : BusState f m s.globals.global_fd_i2c w)
    (hnull : Opened f m → s.text c.record = none → ∀ w, G w (.fault .null_text)) :
    wp (opens f) G (fun s' w' => BusState f (m + 1) s'.globals.global_fd_i2c w' ∧
      ∃ fd, (0 ≤ fd ↔ Opened f m) ∧ Initialised T s c.record fd s') (c.prog T s) w := by
  refine wp_init (R := fun fd w' => BusState f (m + 1) fd w' ∧ (0 ≤ fd ↔ Opened f m)) hc
    (fun w st msg => ⟨hG w _ nofun, fun _ _ h => h⟩) (fun _ => hG w _ nofun)
    (fun fd w' ho hfd ht => hnull ((hb.opened ho).2.mp hfd) ht w') (fun fd w' ho => hb.opened ho)
    ?_ (fun fd w' s' hR hs => ⟨hs.fd.symm ▸ hR.1, fd, hR.2, hs⟩)
  intro fd w' n ch k ho _ _ _ _ a b cf
  refine ⟨hG w' _ nofun, fun r w'' (h : w'' = w') => ?_⟩
  rw [h]
  exact hb.opened ho

theorem init_faults {g : Globals} {prec : DbCommon} {m w : ℕ}
    (hb : BusState f m g.global_fd_i2c w) (ho : Opened f m) {Q : ℤ × Globals × DbCommon → ℕ → Prop} :
    ¬ wp (opens f) (fun _ o => NotFault o) Q (init_record_common T g prec none) w := by
  intro h
  unfold init_record_common at h
  rcases hb with ⟨-, hg⟩ | ⟨hall, hg, rfl⟩
  · rw [if_neg (by omega)] at h
    exact h.1 _ rfl
  · rw [if_pos hg] at h
    obtain ⟨j, hj, hfj⟩ := ho
    have hfw : 0 ≤ f w := by
      by_cases hjw : j = w
      · exact hjw ▸ hfj
      · have hneg := hall j (by omega)
        omega
    have hafter := h.2 (f w) (w + 1) ⟨rfl, rfl⟩
    simp only [bind_eq, ret_bind] at hafter
    rw [if_neg (by omega)] at hafter
    exact hafter.1 _ rfl

theorem process_faults {E : Env DevSig ℕ} {c : IocCall} (hc : c.is_init = false) {s : Ioc} {w : ℕ}
    (hd : s.dpvt c.record = none) {Q : Ioc → ℕ → Prop} :
    ¬ wp E (fun _ o => NotFault o) Q (c.prog T s) w := by
  intro h
  rcases c with k | ⟨k, cfg₀⟩ | ⟨k, cfg₀⟩ | ⟨k, val⟩
  · exact nomatch hc
  · exact nomatch hc
  · have hp : wp E (fun _ o => NotFault o) _ ((read_ai s.globals (s.ai k) cfg₀).bind fun r =>
      ret (s.set_ai k s.globals r.2)) w := h
    rw [read_ai_eq] at hp
    unfold private_entry at hp
    rw [show (s.ai k).dpvt = none from hd] at hp
    exact hp.1 _ rfl
  · have hp : wp E (fun _ o => NotFault o) _
      ((write_ao T s.globals { s.ao k with val := val }).bind fun r =>
        ret (s.set_ao k s.globals r.2)) w := h
    rw [write_ao_eq] at hp
    unfold private_entry at hp
    rw [show (s.ao k).dpvt = none from hd] at hp
    exact hp.1 _ rfl

/-! ### Runs -/

/-- No run of the calls makes an invalid access. -/
def NoCrash (T : Target) (f : ℕ → ℤ) (cs : List IocCall) (s : Ioc) : Prop :=
  ∀ c φ w', ¬ Issues (Env.tag (opens f)) (dev_session T cs s) 0 (c, .fault φ) w'

theorem opens_answers (w : ℕ) {o : DevOp} (h : NotFault o) : ∃ r w', opens f w o r w' := by
  cases o with
  | read_temp_ds75 fd addr t => exact ⟨⟨0, t⟩, w, rfl⟩
  | access_ds75_details fd addr a b c m => exact ⟨⟨0, a, b, c⟩, w, rfl⟩
  | open_i2c_bus bus => exact ⟨f w, w + 1, rfl, rfl⟩
  | gpio_read gpio => exact ⟨(0 : ℤ), w, rfl⟩
  | gpio_write gpio state => exact ⟨(0 : ℤ), w, rfl⟩
  | recGblRecordError st m => exact ⟨(), w, rfl⟩
  | errlogPrintf m => exact ⟨(), w, rfl⟩
  | fault φ => exact absurd rfl (h φ)

section Runs

variable {s : Ioc} {inits procs : List IocCall}

/-- Without a crash, a first part of the run can be gone through, and the rest does not crash either. -/
theorem NoCrash.split {cs ds : List IocCall} (h : NoCrash T f (cs ++ ds) s) {I : Ioc → ℕ → Prop}
    (hI : wp (Env.tag (opens f)) (fun _ _ => True) I (dev_session T cs s) 0) :
    ∃ s₁ w₁, I s₁ w₁ ∧ wp (Env.tag (opens f)) (fun _ o => NotFault o.2) (fun _ _ => True)
      (dev_session T ds s₁) w₁ := by
  have hrun : wp (Env.tag (opens f)) (fun _ o => NotFault o.2) (fun _ _ => True)
      (dev_session T (cs ++ ds) s) 0 := by
    refine wp_iff.mpr ⟨fun o w' hissue φ hφ => ?_, fun _ _ _ => trivial⟩
    obtain ⟨c, o⟩ := o
    have ho : o = .fault φ := hφ
    subst ho
    exact h c φ w' hissue
  unfold dev_session at hrun
  rw [session_append, wp_bind] at hrun
  have hanswer : ∀ (w : ℕ) (o : IocCall × DevOp), NotFault o.2 →
      ∃ r w', Env.tag (opens f) w o r w' := fun w o ho => opens_answers w ho
  obtain ⟨s₁, w₁, -, hrest, hs₁⟩ :=
    returns_of_wp (wp_mono hanswer (fun _ _ h => h) (wp_and hrun hI))
  exact ⟨s₁, w₁, hs₁, hrest⟩

/-- What is known after initialisations: which records have private data, and the bus. -/
def AfterInits (T : Target) (f : ℕ → ℤ) (s₀ : Ioc) (cs : List IocCall) (s : Ioc) (w : ℕ) : Prop :=
  Placed T (Opened f) s₀ cs s ∧ BusState f cs.length s.globals.global_fd_i2c w

/-- **Initialisations**, under any guard that only excludes the null texts of `cs`. -/
theorem inits_after {G : ℕ → (DevSig.tag IocCall).Op → Prop}
    (hG : ∀ w c o, NotFault o → G w (c, o)) {cs : List IocCall} (hi : ∀ c ∈ cs, c.is_init = true)
    (hnull : ∀ k c, cs[k]? = some c → Opened f k → s.text c.record = none →
      ∀ w, G w (c, .fault .null_text))
    (hnew : ∀ r, s.dpvt r = none) (hclosed : s.globals.global_fd_i2c < 0) :
    wp (Env.tag (opens f)) G (AfterInits T f s cs) (dev_session T cs s) 0 := by
  refine wp_session_prefix (fun pre c post hcs s₁ w₁ hI => ?_)
    ⟨.start hnew, .inr ⟨nofun, hclosed, rfl⟩⟩
  have hc : cs[pre.length]? = some c := by rw [hcs]; simp
  refine wp_conseq (init_crash (fun w o ho => hG w c o ho) (hi c (by rw [hcs]; simp)) hI.2 ?_) ?_
  · intro ho ht w
    exact hnull pre.length c hc ho (by rw [← hI.1.text]; exact ht) w
  · rintro s' w' ⟨hb, fd, hfd, hs⟩
    refine ⟨hI.1.step hs hfd, ?_⟩
    rw [List.length_append]
    exact hb

theorem text_of_no_crash (hi : ∀ c ∈ inits, c.is_init = true) (hnew : ∀ r, s.dpvt r = none)
    (hclosed : s.globals.global_fd_i2c < 0) (h : NoCrash T f (inits ++ procs) s) {k : ℕ}
    {c : IocCall} (hk : inits[k]? = some c) (ho : Opened f k) : s.text c.record ≠ none := by
  intro ht
  have hsplit : inits = inits.take k ++ c :: inits.drop (k + 1) := by
    obtain ⟨hlt, rfl⟩ := List.getElem?_eq_some_iff.mp hk
    rw [List.cons_getElem_drop_succ, List.take_append_drop]
  have hlen : (inits.take k).length = k := by
    obtain ⟨hlt, -⟩ := List.getElem?_eq_some_iff.mp hk
    rw [List.length_take]
    omega
  rw [hsplit, List.append_assoc] at h
  obtain ⟨s₁, w₁, ⟨hplaced, hbus⟩, hrest⟩ := h.split (inits_after (T := T) (fun _ _ _ _ => trivial)
    (fun c hc => hi c (List.mem_of_mem_take hc)) (fun _ _ _ _ _ _ => trivial) hnew hclosed)
  rw [List.cons_append] at hrest
  unfold dev_session at hrest
  rw [session_cons, wp_bind, wp_tag] at hrest
  rw [hlen] at hbus
  rw [← hplaced.text] at ht
  have hc : c.is_init = true := hi c (List.mem_of_getElem? hk)
  rcases c with j | ⟨j, cfg₀⟩ | ⟨j, cfg₀⟩ | ⟨j, val⟩
  · have hcall : wp (opens f) (fun _ o => NotFault o) _ ((init_record_ai T s₁.globals
      (s₁.ai j)).bind fun r => ret (s₁.set_ai j r.2.1 r.2.2)) w₁ := hrest
    unfold init_record_ai at hcall
    rw [wp_bind, bind_eq, wp_bind, show (s₁.ai j).inp_text = none from ht] at hcall
    exact init_faults hbus ho hcall
  · have hcall : wp (opens f) (fun _ o => NotFault o) _ ((init_record_ao T s₁.globals
      (s₁.ao j) cfg₀).bind fun r => ret (s₁.set_ao j r.2.1 r.2.2)) w₁ := hrest
    unfold init_record_ao at hcall
    rw [wp_bind, bind_eq, wp_bind, show (s₁.ao j).out_text = none from ht] at hcall
    exact init_faults hbus ho hcall
  · exact nomatch hc
  · exact nomatch hc

theorem accepted_of_no_crash (hi : ∀ c ∈ inits, c.is_init = true)
    (hp : ∀ c ∈ procs, c.is_init = false) (hnew : ∀ r, s.dpvt r = none)
    (hclosed : s.globals.global_fd_i2c < 0) (h : NoCrash T f (inits ++ procs) s) {c : IocCall}
    (hc : c ∈ procs) :
    ∃ k d, inits[k]? = some d ∧ d.record = c.record ∧ Opened f k ∧ s.accepted T c.record ≠ none := by
  obtain ⟨pre, post, rfl⟩ := List.append_of_mem hc
  rw [← List.append_assoc] at h
  have hpre : wp (Env.tag (opens f)) (fun _ _ => True)
      (fun s' _ => Placed T (Opened f) s inits s') (dev_session T (inits ++ pre) s) 0 := by
    unfold dev_session
    rw [session_append, wp_bind]
    refine wp_conseq (inits_after (T := T) (f := f) (fun _ _ _ _ => trivial) hi
      (fun _ _ _ _ _ _ => trivial) hnew hclosed) fun s₁ w₁ hs₁ => ?_
    refine wp_session (fun d hd s₂ w₂ hs₂ => ?_) hs₁.1
    refine wp_conseq (wp_same (hp d (by simp [hd])) (fun _ _ _ => trivial) fun _ => trivial)
      fun s₃ _ hs => ⟨hs.text.trans hs₂.text, fun r i => ?_⟩
    rw [hs.dpvt]
    exact hs₂.dpvt r i
  obtain ⟨s₁, w₁, hplaced, hrest⟩ := h.split hpre
  unfold dev_session at hrest
  rw [session_cons, wp_bind, wp_tag] at hrest
  rcases hd : s₁.dpvt c.record with _ | i
  · exact absurd hrest (process_faults (hp c hc) hd)
  · obtain ⟨k, d, n, ch, hk, hr, ho, hacc, -⟩ := (hplaced.dpvt _ _).mp hd
    exact ⟨k, d, hk, hr, ho, by rw [hacc]; exact nofun⟩

theorem wp_processings (hp : ∀ c ∈ procs, c.is_init = false) {s₁ : Ioc}
    (hready : ∀ c ∈ procs, s₁.dpvt c.record ≠ none) (w₁ : ℕ) :
    wp (Env.tag (opens f)) (fun _ o => NotFault o.2) (fun s' _ => SameDriver s₁ s')
      (dev_session T procs s₁) w₁ := by
  refine wp_session (fun c hc s₂ w₂ hs₂ => ?_) ⟨rfl, rfl, rfl⟩
  refine wp_conseq (wp_same (hp c hc) (fun _ _ ho => ho) fun hnone => ?_)
    fun s₃ _ hs => hs₂.trans hs
  rw [hs₂.dpvt] at hnone
  exact absurd hnone (hready c hc)

/-- **When nothing crashes**: a link without a text is never initialised while the bus is open, and
every record that is processed has been initialised while the bus was open, with a text that is
accepted. -/
theorem no_crash_iff (hi : ∀ c ∈ inits, c.is_init = true) (hp : ∀ c ∈ procs, c.is_init = false)
    (hnew : ∀ r, s.dpvt r = none) (hclosed : s.globals.global_fd_i2c < 0) :
    NoCrash T f (inits ++ procs) s ↔
      (∀ k c, inits[k]? = some c → Opened f k → s.text c.record ≠ none) ∧
      ∀ c ∈ procs, ∃ k d, inits[k]? = some d ∧ d.record = c.record ∧ Opened f k ∧
        s.accepted T c.record ≠ none := by
  constructor
  · intro h
    constructor
    · intro k c hk ho
      exact text_of_no_crash hi hnew hclosed h hk ho
    · intro c hc
      exact accepted_of_no_crash hi hp hnew hclosed h hc
  · rintro ⟨htext, hready⟩ c φ w' hissue
    have hrun : wp (Env.tag (opens f)) (fun _ o => NotFault o.2) (fun _ _ => True)
        (dev_session T (inits ++ procs) s) 0 := by
      unfold dev_session
      rw [session_append, wp_bind]
      refine wp_conseq (inits_after (T := T) (fun _ _ _ ho => ho) hi
        (fun k c hk ho ht => absurd ht (htext k c hk ho)) hnew hclosed) fun s₁ w₁ hs₁ => ?_
      have hdpvt : ∀ c ∈ procs, s₁.dpvt c.record ≠ none := by
        intro c hc hnone
        obtain ⟨k, d, hk, hr, ho, hacc⟩ := hready c hc
        obtain ⟨⟨n, ch⟩, hp⟩ := Option.ne_none_iff_exists'.mp hacc
        have hsome := (hs₁.1.dpvt c.record _).mpr ⟨k, d, n, ch, hk, hr, ho, hp, rfl⟩
        rw [hsome] at hnone
        exact nomatch hnone
      exact wp_conseq (wp_processings hp hdpvt w₁) fun _ _ _ => trivial
    exact wp_issues hrun hissue φ rfl

end Runs

/-- Probe 5 is read after the second attempt to open the bus has succeeded. -/
theorem no_crash_five :
    NoCrash ⟨false, fun _ => 0, id⟩ (fun i => if i = 0 then -1 else 3)
      ([.init_record_ai 1, .init_record_ai 0] ++ [.read_ai 0 0])
      ⟨Globals.init, fun _ => { (default : AiRecord) with inp_text := some ['5'] },
        fun _ => default⟩ := by
  refine (no_crash_iff ?_ ?_ (fun r => by cases r <;> rfl) (by decide)).mpr ⟨?_, ?_⟩
  · simp [IocCall.is_init]
  · simp [IocCall.is_init]
  · intro k c hk _
    have hc : c = .init_record_ai 1 ∨ c = .init_record_ai 0 := by
      simpa using List.mem_of_getElem? hk
    rcases hc with rfl | rfl
    · exact Option.some_ne_none _
    · exact Option.some_ne_none _
  · intro c hc
    obtain rfl : c = .read_ai 0 0 := by simpa using hc
    exact ⟨1, .init_record_ai 0, rfl, rfl, ⟨1, le_refl 1, by decide⟩, by decide⟩

/-- A record with text "99" is processed although its initialisation has failed, and a link without a
text is initialised. -/
theorem crashes :
    (¬ NoCrash ⟨false, fun _ => 0, id⟩ (fun _ => 3) ([.init_record_ai 0] ++ [.read_ai 0 0])
      ⟨Globals.init, fun _ => { (default : AiRecord) with inp_text := some ['9', '9'] },
        fun _ => default⟩) ∧
    ¬ NoCrash ⟨false, fun _ => 0, id⟩ (fun _ => 3) ([.init_record_ai 0] ++ [.read_ai 0 0])
      ⟨Globals.init, fun _ => default, fun _ => default⟩ := by
  have hopen : opens (fun _ => 3) 0 (.open_i2c_bus 2) (3 : ℤ) 1 := ⟨rfl, rfl⟩
  constructor
  · intro h
    have hmessage : ∀ m, opens (fun _ => 3) 1 (.recGblRecordError S_db_badField m) () 1 :=
      fun _ => rfl
    exact h (.read_ai 0 0) .null_dpvt 1 ⟨_, .step hopen (.step (hmessage _) (.refl _ _))⟩
  · intro h
    exact h (.init_record_ai 0) .null_text 1 ⟨_, .step hopen (.refl _ _)⟩

end RackmonIoc.Temp
