import RackmonIoc.Driver.Ioc

/-!
# The private data of the records

Any sequence of initialisations.  A record whose text is accepted gets the entry of its number and of
the bank of its letter.  Only H, L and C have a bank of their own, so each record keeps its own entry
exactly when no two of the others have the same number and different letters.
-/

namespace RackmonIoc.Temp

open Program CLib Base Driver Prog

/-- The calls of a sequential run, down to the operations of the device support. -/
def dev_session (T : Target) (cs : List IocCall) (s : Ioc) : Prog (DevSig.tag IocCall) Ioc :=
  session (fun c s => c.prog T s) cs s

variable {T : Target}

/-! ### Which records have private data -/

theorem getElem?_concat_iff {A : Type} {l : List A} {a b : A} {k : ℕ} :
    (l ++ [a])[k]? = some b ↔ l[k]? = some b ∨ k = l.length ∧ b = a := by
  rcases Nat.lt_trichotomy k l.length with hk | rfl | hk
  · rw [List.getElem?_append_left hk]
    have hne : k ≠ l.length := by omega
    simp [hne]
  · simp [eq_comm]
  · rw [List.getElem?_eq_none (by simp; omega), List.getElem?_eq_none (by omega)]
    have hne : k ≠ l.length := by omega
    simp [hne]

/-- After the initialisations `cs`, of which those at the positions `opened` found the bus open: the
records that have private data, and where. -/
structure Placed (T : Target) (opened : ℕ → Prop) (s₀ : Ioc) (cs : List IocCall) (s : Ioc) :
    Prop where
  text : s.text = s₀.text
  dpvt : ∀ r i, s.dpvt r = some i ↔ ∃ k c n ch, cs[k]? = some c ∧ c.record = r ∧ opened k ∧
    s₀.accepted T r = some (n, ch) ∧ i = slot n ch

variable {opened : ℕ → Prop} {s₀ s s' : Ioc} {cs : List IocCall}

theorem Placed.accepted (h : Placed T opened s₀ cs s) (r : Rec) :
    s.accepted T r = s₀.accepted T r := by
  rw [accepted_record, accepted_record, h.text]

theorem Placed.start (hnew : ∀ r, s.dpvt r = none) : Placed T opened s [] s where
  text := rfl
  dpvt r i := by
    rw [hnew r]
    constructor
    · nofun
    · rintro ⟨k, c, n, ch, hk, -⟩
      simp at hk

/-- **One more initialisation.** -/
theorem Placed.step (h : Placed T opened s₀ cs s) {c : IocCall} {fd : ℤ}
    (hs : Initialised T s c.record fd s') (hfd : 0 ≤ fd ↔ opened cs.length) :
    Placed T opened s₀ (cs ++ [c]) s' := by
  rcases hs with ⟨ht, -, hd, hrefused⟩ | ⟨ht, -, hd, h0, hacc⟩
  · refine ⟨ht.trans h.text, fun r i => ?_⟩
    rw [hd, h.dpvt]
    constructor
    · rintro ⟨k, d, n, ch, hk, hr⟩
      exact ⟨k, d, n, ch, getElem?_concat_iff.mpr (.inl hk), hr⟩
    · rintro ⟨k, d, n, ch, hk, hr, ho, hacc, hi⟩
      rcases getElem?_concat_iff.mp hk with hk | ⟨rfl, rfl⟩
      · exact ⟨k, d, n, ch, hk, hr, ho, hacc, hi⟩
      · -- the new one is refused although the bus is open, so its text is
        have hnone := hrefused (hfd.mpr ho)
        rw [h.accepted, hr, hacc] at hnone
        exact nomatch hnone
  · rename_i n ch
    rw [h.accepted] at hacc
    refine ⟨ht.trans h.text, fun r i => ?_⟩
    rw [hd]
    by_cases hr : r = c.record
    · subst hr
      rw [Function.update_self, Option.some.injEq]
      constructor
      · rintro rfl
        exact ⟨cs.length, c, n, ch, getElem?_concat_iff.mpr (.inr ⟨rfl, rfl⟩), rfl, hfd.mp h0,
          hacc, rfl⟩
      · rintro ⟨k, d, m, ch', -, -, -, hacc', hi⟩
        obtain ⟨rfl, rfl⟩ := Prod.mk.inj (Option.some.inj (hacc.symm.trans hacc'))
        exact hi.symm
    · rw [Function.update_of_ne hr, h.dpvt]
      constructor
      · rintro ⟨k, d, m, ch', hk, hrest⟩
        exact ⟨k, d, m, ch', getElem?_concat_iff.mpr (.inl hk), hrest⟩
      · rintro ⟨k, d, m, ch', hk, hdr, hrest⟩
        rcases getElem?_concat_iff.mp hk with hk | ⟨rfl, rfl⟩
        · exact ⟨k, d, m, ch', hk, hdr, hrest⟩
        · exact absurd hdr.symm hr

/-! ### The letters that share a bank -/

/-- The letter has a bank of `private_data` of its own. -/
def OwnBank (ch : Char) : Prop := ch = 'H' ∨ ch = 'L' ∨ ch = 'C'

theorem bank_eq_zero_of_not_ownBank {ch : Char} : ¬ OwnBank ch ↔ bank ch = 0 := by
  unfold OwnBank
  rw [bank_eq_zero_iff, not_or, not_or]

/-- No two of the records share an entry with different letters. -/
def NoClash (T : Target) (s : Ioc) (cs : List IocCall) : Prop :=
  ∀ c ∈ cs, ∀ c' ∈ cs, ∀ n ch ch', s.accepted T c.record = some (n, ch) →
    s.accepted T c'.record = some (n, ch') → ¬ OwnBank ch → ¬ OwnBank ch' → ch = ch'

/-- Storing the entry of a record leaves the entries of the others right. -/
theorem own_initialised (hown : OwnEntries T s) (h : Placed T opened s₀ cs s) {c : IocCall}
    {fd : ℤ} (hs : Initialised T s c.record fd s') {ds : List IocCall}
    (hclash : NoClash T s₀ (cs ++ c :: ds)) : OwnEntries T s' := by
  rcases hs with ⟨ht, hg, hd, -⟩ | ⟨ht, hg, hd, -, hacc⟩
  · intro r i hi
    rw [hd] at hi
    obtain ⟨n, ch, haccr, hentry⟩ := hown r i hi
    rw [accepted_record, ht, hg]
    exact ⟨n, ch, haccr, hentry⟩
  · rename_i n ch
    intro r i hi
    rw [hd] at hi
    rw [accepted_record, ht, hg]
    by_cases hr : r = c.record
    · subst hr
      rw [Function.update_self, Option.some.injEq] at hi
      refine ⟨n, ch, hacc, ?_⟩
      rw [← hi, Globals.store_self]
    · rw [Function.update_of_ne hr] at hi
      obtain ⟨m, ch', haccr, hentry⟩ := hown r i hi
      refine ⟨m, ch', haccr, ?_⟩
      by_cases hslot : i = slot n ch
      · -- the entry is the one stored: the two letters share a bank, so they are one letter
        obtain ⟨k, d, m', ch'', hk, hdr, -, hacc'', hi'⟩ := (h.dpvt r i).mp hi
        rw [h.accepted] at hacc haccr
        obtain ⟨rfl, rfl⟩ := Prod.mk.inj (Option.some.inj (haccr.symm.trans hacc''))
        obtain ⟨rfl, hbank⟩ := (slot_eq_iff (accepted_link_range hacc'')
          (accepted_link_range hacc)).mp (hi'.symm.trans hslot)
        have hletter : ch' = ch := by
          rcases (bank_eq_iff ch' ch).mp hbank with heq | ⟨h0, h0'⟩
          · exact heq
          · have hd' : d ∈ cs := List.mem_of_getElem? hk
            subst hdr
            exact hclash d (by simp [hd']) c (by simp) _ _ _ haccr hacc
              (bank_eq_zero_of_not_ownBank.mpr h0) (bank_eq_zero_of_not_ownBank.mpr h0')
        rw [hslot, Globals.store_self, hletter]
      · rw [Globals.store_of_ne _ _ _ hslot]
        exact hentry

/-! ### Runs -/

/-- Any outcome of every operation, but that the bus can always be opened. -/
def busOpens : Env DevSig Unit := fun _ o r _ =>
  match o, r with
  | .open_i2c_bus _, r => (0 : ℤ) ≤ r
  | _, _ => True

theorem busOpened_nonneg {g : Globals} {fd : ℤ} (h : BusOpened busOpens g () fd ()) : 0 ≤ fd := by
  unfold BusOpened at h
  split at h
  · exact h
  · rename_i hg
    have hfd : fd = g.global_fd_i2c := h.1
    omega

theorem busOpens_answers {o : DevOp} (h : ∀ f, o ≠ .fault f) : ∃ r w', busOpens () o r w' := by
  cases o with
  | read_temp_ds75 fd addr t => exact ⟨⟨0, t⟩, (), trivial⟩
  | access_ds75_details fd addr a b c m => exact ⟨⟨0, a, b, c⟩, (), trivial⟩
  | open_i2c_bus bus => exact ⟨(0 : ℤ), (), le_refl (0 : ℤ)⟩
  | gpio_read gpio => exact ⟨(0 : ℤ), (), trivial⟩
  | gpio_write gpio state => exact ⟨(0 : ℤ), (), trivial⟩
  | recGblRecordError st m => exact ⟨(), (), trivial⟩
  | errlogPrintf m => exact ⟨(), (), trivial⟩
  | fault f => exact absurd rfl (h f)

/-- One initialisation, for any invariant of the driver that it keeps. -/
theorem init_opens {G : Unit → DevOp → Prop} (hG : ∀ o, (∀ f, o ≠ .fault f) → G () o)
    {c : IocCall} (hc : c.is_init = true) {s : Ioc}
    (hnull : s.text c.record = none → G () (.fault .null_text)) :
    wp busOpens G (fun s' _ => ∃ fd, 0 ≤ fd ∧ Initialised T s c.record fd s') (c.prog T s) () := by
  refine wp_init (R := fun fd _ => 0 ≤ fd) hc (fun _ st m => ⟨hG _ (by simp), fun _ _ _ => rfl⟩)
    (fun _ => hG _ (by simp)) (fun _ _ _ _ ht => hnull ht) (fun fd _ hb => busOpened_nonneg hb) ?_
    (fun fd _ s' hfd hs => ⟨fd, hfd, hs⟩)
  intro fd _ n ch k _ hfd _ _ _ a b cf
  exact ⟨hG _ (by simp), fun _ _ _ => hfd⟩

/-- The entries of the records are their own, and in the table. -/
def KeepsOwn (T : Target) (s : Ioc) : Prop :=
  OwnEntries T s ∧ ∀ r i, s.dpvt r = some i → 0 ≤ i ∧ i < NCH_RACKTEMP * 4

theorem Placed.inTable (h : Placed T opened s₀ cs s) {r : Rec} {i : ℤ} (hi : s.dpvt r = some i) :
    0 ≤ i ∧ i < NCH_RACKTEMP * 4 := by
  obtain ⟨k, c, n, ch, -, -, -, hacc, rfl⟩ := (h.dpvt r i).mp hi
  obtain ⟨h0, h64⟩ := accepted_link_range hacc
  exact slot_range h0 h64 ch

/-- **Each record keeps its own private data**, in every run of the initialisations, exactly when no two
accepted texts have one number and different letters that are neither H, L nor C. -/
theorem keeps_own_iff (hi : ∀ c ∈ cs, c.is_init = true)
    (htext : ∀ c ∈ cs, (s.text c.record).isSome) (hnew : ∀ r, s.dpvt r = none) :
    (∀ s', Returns (Env.tag busOpens) (dev_session T cs s) () s' () → KeepsOwn T s') ↔
      NoClash T s cs := by
  constructor
  · intro hkeeps
    have hrun : wp (Env.tag busOpens) (fun w o => ∃ r w', Env.tag busOpens w o r w')
        (fun s' _ => Placed T (fun _ => True) s cs s') (dev_session T cs s) () := by
      refine wp_session_prefix (I := fun ds s' _ => Placed T (fun _ => True) s ds s')
        (fun pre c post hcs s' _ hI => ?_) (.start hnew)
      have hmem : c ∈ cs := by rw [hcs]; simp
      refine wp_conseq (init_opens (fun o ho => busOpens_answers ho) (hi c hmem) fun hnone => ?_)
        fun s'' _ h => ?_
      · have hsome := htext c hmem
        rw [← hI.text, hnone] at hsome
        exact nomatch hsome
      · obtain ⟨fd, hfd, hs⟩ := h
        exact hI.step hs (by simp [hfd])
    obtain ⟨s', ⟨⟩, hret, hplaced⟩ := returns_of_wp hrun
    obtain ⟨hown, -⟩ := hkeeps s' hret
    -- both records point to the one entry, which holds the letter of each
    have hentry : ∀ c ∈ cs, ∀ n ch, s.accepted T c.record = some (n, ch) →
        s'.globals.private_data (slot n ch) = ⟨n, ch⟩ := by
      intro c hc n ch hacc
      obtain ⟨k, hk⟩ := List.getElem?_of_mem hc
      obtain ⟨m, ch', hacc', hp⟩ := hown c.record (slot n ch)
        ((hplaced.dpvt _ _).mpr ⟨k, c, n, ch, hk, rfl, trivial, hacc, rfl⟩)
      rw [hplaced.accepted, hacc] at hacc'
      obtain ⟨rfl, rfl⟩ := Prod.mk.inj (Option.some.inj hacc')
      exact hp
    intro c hc c' hc' n ch ch' hacc hacc' hb hb'
    have h1 := hentry c hc n ch hacc
    have h2 := hentry c' hc' n ch' hacc'
    have hslot : slot n ch = slot n ch' := by
      rw [slot_eq, slot_eq, bank_eq_zero_of_not_ownBank.mp hb, bank_eq_zero_of_not_ownBank.mp hb']
    rw [hslot, h2] at h1
    exact (congrArg my_dpvt_s.what h1).symm
  · intro hclash s' hret
    have hrun : wp (Env.tag busOpens) (fun _ _ => True)
        (fun s' _ => Placed T (fun _ => True) s cs s' ∧ OwnEntries T s') (dev_session T cs s) () := by
      refine wp_session_prefix
        (I := fun ds s' _ => Placed T (fun _ => True) s ds s' ∧ OwnEntries T s')
        (fun pre c post hcs s₁ _ hI => ?_) ⟨.start hnew, fun r i h => ?_⟩
      · have hmem : c ∈ cs := by rw [hcs]; simp
        refine wp_conseq (init_opens (fun _ _ => trivial) (hi c hmem) fun _ => trivial)
          fun s'' _ h => ?_
        obtain ⟨fd, hfd, hs⟩ := h
        exact ⟨hI.1.step hs (by simp [hfd]), own_initialised hI.2 hI.1 hs (hcs ▸ hclash)⟩
      · rw [hnew r] at h
        exact nomatch h
    obtain ⟨hplaced, hown⟩ := wp_returns hrun hret
    exact ⟨hown, fun r i h => hplaced.inTable h⟩

/-- The high limit and the config byte of probe 0 keep their entries. -/
theorem keeps_own_banks :
    ∃ s', Returns (Env.tag busOpens) (dev_session ⟨false, fun _ => 0, id⟩
        [.init_record_ai 0, .init_record_ao 0 0]
        ⟨Globals.init, fun _ => { (default : AiRecord) with inp_text := some ['0', 'H'] },
          fun _ => { (default : AoRecord) with out_text := some ['0', 'C'] }⟩) () s' () ∧
      KeepsOwn ⟨false, fun _ => 0, id⟩ s' := by
  let T : Target := ⟨false, fun _ => 0, id⟩
  let s : Ioc := ⟨Globals.init, fun _ => { (default : AiRecord) with inp_text := some ['0', 'H'] },
    fun _ => { (default : AoRecord) with out_text := some ['0', 'C'] }⟩
  have hai : s.accepted T (.ai 0) = some (0, 'H') := by decide
  have hao : s.accepted T (.ao 0) = some (0, 'C') := by decide
  have hopen : busOpens () (.open_i2c_bus 2) (0 : ℤ) () := le_refl (0 : ℤ)
  have hread : busOpens () (.access_ds75_details 0 0 none none (some 0) 'r')
    (⟨0, none, none, some 96⟩ : Details) () := trivial
  have hret : ∃ s', Returns (Env.tag busOpens)
      (dev_session T [.init_record_ai 0, .init_record_ao 0 0] s) () s' () :=
    ⟨_, .step hopen (.step hread (.refl _ _))⟩
  obtain ⟨s', hret⟩ := hret
  refine ⟨s', hret, (keeps_own_iff ?_ ?_ (fun r => by cases r <;> rfl)).mpr ?_ s' hret⟩
  · simp [IocCall.is_init]
  · simp [IocCall.record, Ioc.text, s]
  · -- each of the two letters has a bank of its own
    intro c hc c' _ n ch ch' hacc _ hb
    have hbank : OwnBank ch := by
      simp only [List.mem_cons, List.not_mem_nil, or_false] at hc
      rcases hc with rfl | rfl
      · obtain ⟨-, rfl⟩ := Prod.mk.inj (Option.some.inj (hai.symm.trans hacc))
        exact .inl rfl
      · obtain ⟨-, rfl⟩ := Prod.mk.inj (Option.some.inj (hao.symm.trans hacc))
        exact .inr (.inr rfl)
    exact absurd hbank hb

/-- A record with text "0 S" that is initialised after one with text "0" takes over its entry. -/
theorem not_keeps_own_zero :
    ¬ ∀ s', Returns (Env.tag busOpens) (dev_session ⟨false, fun _ => 0, id⟩
        [.init_record_ai 0, .init_record_ai 1]
        ⟨Globals.init, fun k => { (default : AiRecord) with
          inp_text := some (if k = 0 then ['0'] else ['0', ' ', 'S']) }, fun _ => default⟩) () s' () →
      KeepsOwn ⟨false, fun _ => 0, id⟩ s' := by
  intro hkeeps
  let T : Target := ⟨false, fun _ => 0, id⟩
  let s : Ioc := ⟨Globals.init, fun k => { (default : AiRecord) with
    inp_text := some (if k = 0 then ['0'] else ['0', ' ', 'S']) }, fun _ => default⟩
  have hopen : busOpens () (.open_i2c_bus 2) (0 : ℤ) () := le_refl (0 : ℤ)
  obtain ⟨s', hret, hd, hacc, hp⟩ : ∃ s', Returns (Env.tag busOpens)
      (dev_session T [.init_record_ai 0, .init_record_ai 1] s) () s' () ∧
      s'.dpvt (.ai 0) = some 0 ∧ s'.accepted T (.ai 0) = some (0, ' ') ∧
      s'.globals.private_data 0 = ⟨0, 'S'⟩ :=
    ⟨_, .step hopen (.refl _ _), rfl, rfl, rfl⟩
  obtain ⟨n, ch, hacc', hentry⟩ := (hkeeps s' hret).1 (.ai 0) 0 hd
  obtain ⟨rfl, rfl⟩ := Prod.mk.inj (Option.some.inj (hacc.symm.trans hacc'))
  rw [hp] at hentry
  exact absurd hentry (by decide)

end RackmonIoc.Temp
