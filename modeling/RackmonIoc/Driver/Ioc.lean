import Mathlib.Tactic.SplitIfs
import RackmonIoc.Driver.DevAiRackTemp

/-!
# The driver and its records

The device support together with the ai and ao records it serves, and the calls that the record
support makes: the initialisation of a record, the read of an ai record and the write of an ao record.
The calls run one after the other (`Prog.session`).

* `accepted` is what `init_record_common` makes of a text: the number and the letter, if it takes them;
* `wp_init_record_common` says what one initialisation can do, in any environment;
* `wp_init` and `wp_process` say it of the calls, as far as `private_data` and `dpvt` are concerned.
-/

namespace RackmonIoc.Driver

open Program CLib Base Prog

/-! ### Texts -/

/-- The number and the letter of a text that `init_record_common` accepts. -/
def accepted (T : Target) (text : List Char) : Option (ℤ × Char) :=
  let (nconv, inp_value, inp_char) := sscanf_d_c T.undefined_scan text (-1) ' '
  if nconv > 0 ∧ ¬ (inp_value < 0 ∨ inp_value ≥ NCH_RACKTEMP) then some (inp_value, inp_char)
  else none

/-- The same for a link, which may have no text. -/
def accepted_link (T : Target) (inp : Option (List Char)) : Option (ℤ × Char) :=
  inp.bind (accepted T)

theorem accepted_range {T : Target} {text : List Char} {n : ℤ} {c : Char}
    (h : accepted T text = some (n, c)) : 0 ≤ n ∧ n < 64 := by
  unfold accepted at h
  simp only [Option.ite_none_right_eq_some, Option.some.injEq, Prod.mk.injEq] at h
  obtain ⟨⟨-, hn⟩, rfl, -⟩ := h
  have h64 : NCH_RACKTEMP = 64 := rfl
  omega

theorem accepted_link_range {T : Target} {inp : Option (List Char)} {n : ℤ} {c : Char}
    (h : accepted_link T inp = some (n, c)) : 0 ≤ n ∧ n < 64 := by
  obtain ⟨text, -, ht⟩ := Option.bind_eq_some_iff.mp h
  exact accepted_range ht

/-! ### Slots -/

/-- The bank of `private_data` that a letter chooses. -/
def bank (c : Char) : ℤ := if c = 'H' then 1 else if c = 'L' then 2 else if c = 'C' then 3 else 0

theorem slot_eq (n : ℤ) (c : Char) : slot n c = n + 64 * bank c := by
  have h64 : NCH_RACKTEMP = 64 := rfl
  unfold slot bank
  split_ifs <;> omega

theorem bank_range (c : Char) : 0 ≤ bank c ∧ bank c < 4 := by
  unfold bank
  split_ifs <;> omega

theorem slot_range {n : ℤ} (h0 : 0 ≤ n) (h64 : n < 64) (c : Char) :
    0 ≤ slot n c ∧ slot n c < NCH_RACKTEMP * 4 := by
  have hN : NCH_RACKTEMP = 64 := rfl
  have hb := bank_range c
  rw [slot_eq, hN]
  omega

/-- Two numbers and letters share an entry when the numbers are equal and the letters choose the same
bank. -/
theorem slot_eq_iff {n m : ℤ} {c d : Char} (hn : 0 ≤ n ∧ n < 64) (hm : 0 ≤ m ∧ m < 64) :
    slot n c = slot m d ↔ n = m ∧ bank c = bank d := by
  rw [slot_eq, slot_eq]
  omega

theorem slot_emod {n : ℤ} (h0 : 0 ≤ n) (h64 : n < 64) (c : Char) : slot n c % 64 = n := by
  rw [slot_eq]
  omega

/-- The letters that have a bank of their own. -/
theorem bank_eq_zero_iff (c : Char) : bank c = 0 ↔ c ≠ 'H' ∧ c ≠ 'L' ∧ c ≠ 'C' := by
  unfold bank
  split_ifs <;> simp_all

/-- Two letters choose the same bank when they are equal or neither has a bank of its own. -/
theorem bank_eq_iff (c d : Char) : bank c = bank d ↔ c = d ∨ bank c = 0 ∧ bank d = 0 := by
  constructor
  · intro h
    by_cases h0 : bank d = 0
    · exact .inr ⟨h.trans h0, h0⟩
    · left
      unfold bank at h h0
      split_ifs at h h0 <;> simp_all
  · rintro (rfl | ⟨hc, hd⟩)
    · rfl
    · rw [hc, hd]

/-! ### One initialisation -/

/-- The globals after an accepted text. -/
def Globals.store (g : Globals) (n : ℤ) (c : Char) : Globals :=
  { g with private_data := Function.update g.private_data (slot n c) ⟨n, c⟩ }

@[simp] theorem Globals.store_self (g : Globals) (n : ℤ) (c : Char) :
    (g.store n c).private_data (slot n c) = ⟨n, c⟩ := Function.update_self _ _ _
theorem Globals.store_of_ne (g : Globals) (n : ℤ) (c : Char) {i : ℤ} (h : i ≠ slot n c) :
    (g.store n c).private_data i = g.private_data i := Function.update_of_ne h _ _

theorem init_record_text_accepted {T : Target} {text : List Char} {n : ℤ} {c : Char}
    (h : accepted T text = some (n, c)) (g : Globals) (prec : DbCommon) :
    init_record_text T g prec (some text) =
      ret (0, g.store n c, { prec with dpvt := some (slot n c) }) := by
  unfold accepted at h
  simp only [Option.ite_none_right_eq_some, Option.some.injEq, Prod.mk.injEq] at h
  obtain ⟨⟨hconv, hn⟩, rfl, rfl⟩ := h
  unfold init_record_text
  simp only
  rw [if_pos hconv, if_neg hn]
  rfl

theorem init_record_text_rejected {T : Target} {text : List Char} (h : accepted T text = none)
    (g : Globals) (prec : DbCommon) :
    ∃ message, init_record_text T g prec (some text) =
      .vis (.recGblRecordError S_db_badField message) fun _ => ret (S_db_badField, g, prec) := by
  unfold accepted at h
  simp only [ite_eq_right_iff, reduceCtorEq, imp_false, not_and, not_not] at h
  unfold init_record_text
  simp only
  split_ifs with hconv hn
  · exact ⟨_, rfl⟩
  · exact absurd (h hconv) hn
  · exact ⟨_, rfl⟩

section Init

variable {W : Type} {E : Env DevSig W} {G : W → DevOp → Prop}

/-- The descriptor and the world once the bus has been opened, or found open. -/
def BusOpened (E : Env DevSig W) (g : Globals) (w : W) (fd : ℤ) (w' : W) : Prop :=
  if g.global_fd_i2c < 0 then E w (.open_i2c_bus 2) fd w' else fd = g.global_fd_i2c ∧ w' = w

/-- **What one initialisation can do**, where a message does not change the world: fail to open the
bus, reject the text, or store the number and the letter and set `dpvt`. -/
theorem wp_init_record_common {T : Target} {g : Globals} {prec : DbCommon}
    {inp : Option (List Char)} {Q : ℤ × Globals × DbCommon → W → Prop} {w : W}
    (hmessage : ∀ w st m, G w (.recGblRecordError st m) ∧
      ∀ r w', E w (.recGblRecordError st m) r w' → w' = w)
    (hopen : g.global_fd_i2c < 0 → G w (.open_i2c_bus 2))
    (hnull : ∀ fd w', BusOpened E g w fd w' → 0 ≤ fd → inp = none → G w' (.fault .null_text))
    (hfailed : ∀ fd w', BusOpened E g w fd w' → fd < 0 →
      Q (S_dev_badBus, { g with global_fd_i2c := fd }, prec) w')
    (hrejected : ∀ fd w', BusOpened E g w fd w' → 0 ≤ fd → accepted_link T inp = none →
      Q (S_db_badField, { g with global_fd_i2c := fd }, prec) w')
    (haccepted : ∀ fd w' n c, BusOpened E g w fd w' → 0 ≤ fd → accepted_link T inp = some (n, c) →
      Q (0, { g with global_fd_i2c := fd }.store n c, { prec with dpvt := some (slot n c) }) w') :
    wp E G Q (init_record_common T g prec inp) w := by
  have htext : ∀ fd w', BusOpened E g w fd w' → 0 ≤ fd →
      wp E G Q (init_record_text T { g with global_fd_i2c := fd } prec inp) w' := by
    intro fd w' hb hfd
    rcases inp with _ | text
    · exact ⟨hnull fd w' hb hfd rfl, nofun⟩
    · rcases ht : accepted T text with _ | ⟨n, c⟩
      · obtain ⟨m, hm⟩ := init_record_text_rejected ht { g with global_fd_i2c := fd } prec
        rw [hm]
        refine ⟨(hmessage w' _ _).1, fun r w'' he => ?_⟩
        rw [(hmessage w' _ _).2 r w'' he]
        exact hrejected fd w' hb hfd ht
      · rw [init_record_text_accepted ht]
        exact haccepted fd w' n c hb hfd ht
  unfold init_record_common
  by_cases hg : g.global_fd_i2c < 0
  · rw [if_pos hg]
    refine ⟨hopen hg, fun fd w' he => ?_⟩
    have hb : BusOpened E g w fd w' := (if_pos hg).mpr he
    show wp E G Q (if fd < 0 then _ else _) w'
    rw [wp_ite]
    refine ⟨fun hfd => ?_, fun hfd => htext fd w' hb (Int.not_lt.mp hfd)⟩
    refine ⟨(hmessage w' _ _).1, fun r w'' he' => ?_⟩
    rw [(hmessage w' _ _).2 r w'' he']
    exact hfailed fd w' hb hfd
  · rw [if_neg hg]
    exact htext _ w ((if_neg hg).mpr ⟨rfl, rfl⟩) (by omega)

end Init

/-! ### The records and the calls -/

/-- A record of the driver. -/
inductive Rec where
  | ai (k : ℕ)
  | ao (k : ℕ)
  deriving DecidableEq

/-- The globals of the driver and its records. -/
structure Ioc where
  globals : Globals
  ai : ℕ → AiRecord
  ao : ℕ → AoRecord

def Ioc.common (s : Ioc) : Rec → DbCommon
  | .ai k => (s.ai k).toDbCommon
  | .ao k => (s.ao k).toDbCommon

/-- The text of the INP or OUT link. -/
def Ioc.text (s : Ioc) : Rec → Option (List Char)
  | .ai k => (s.ai k).inp_text
  | .ao k => (s.ao k).out_text

def Ioc.dpvt (s : Ioc) (r : Rec) : Option ℤ := (s.common r).dpvt

/-- The number and the letter of the text of a record, if the initialisation accepts it. -/
def Ioc.accepted (T : Target) (s : Ioc) (r : Rec) : Option (ℤ × Char) := accepted_link T (s.text r)

/-- A call of the device support; `cfg₀` is the content of an uninitialised local, and `val` the value
the record support has put in the record. -/
inductive IocCall where
  | init_record_ai (k : ℕ)
  | init_record_ao (k : ℕ) (cfg₀ : UInt8)
  | read_ai (k : ℕ) (cfg₀ : UInt8)
  | write_ao (k : ℕ) (val : Double)

/-- The record that a call is made for. -/
def IocCall.record : IocCall → Rec
  | init_record_ai k | read_ai k _ => .ai k
  | init_record_ao k _ | write_ao k _ => .ao k

/-- The call initialises its record. -/
def IocCall.is_init : IocCall → Bool
  | init_record_ai _ | init_record_ao _ _ => true
  | read_ai _ _ | write_ao _ _ => false

def Ioc.set_ai (s : Ioc) (k : ℕ) (g : Globals) (prec : AiRecord) : Ioc :=
  { s with globals := g, ai := Function.update s.ai k prec }

def Ioc.set_ao (s : Ioc) (k : ℕ) (g : Globals) (prec : AoRecord) : Ioc :=
  { s with globals := g, ao := Function.update s.ao k prec }

def IocCall.prog (T : Target) : IocCall → Ioc → Prog DevSig Ioc
  | init_record_ai k, s => do
    let r ← Driver.init_record_ai T s.globals (s.ai k)
    return s.set_ai k r.2.1 r.2.2
  | init_record_ao k cfg₀, s => do
    let r ← Driver.init_record_ao T s.globals (s.ao k) cfg₀
    return s.set_ao k r.2.1 r.2.2
  | read_ai k cfg₀, s => do
    let r ← Driver.read_ai s.globals (s.ai k) cfg₀
    return s.set_ai k s.globals r.2
  | write_ao k val, s => do
    let r ← Driver.write_ao T s.globals { s.ao k with val := val }
    return s.set_ao k s.globals r.2

/-! ### What a call does to the private data -/

theorem Ioc.set_ai_dpvt (s : Ioc) (k : ℕ) (g : Globals) (prec : AiRecord) :
    (s.set_ai k g prec).dpvt = Function.update s.dpvt (.ai k) prec.dpvt := by
  funext r
  rcases r with j | j
  · by_cases h : j = k
    · subst h
      simp [dpvt, common, set_ai]
    · simp [dpvt, common, set_ai, h]
  · simp [dpvt, common, set_ai]

theorem Ioc.set_ao_dpvt (s : Ioc) (k : ℕ) (g : Globals) (prec : AoRecord) :
    (s.set_ao k g prec).dpvt = Function.update s.dpvt (.ao k) prec.dpvt := by
  funext r
  rcases r with j | j
  · simp [dpvt, common, set_ao]
  · by_cases h : j = k
    · subst h
      simp [dpvt, common, set_ao]
    · simp [dpvt, common, set_ao, h]

/-- A record that keeps its private data. -/
theorem Ioc.set_ai_dpvt_self (s : Ioc) {k : ℕ} {g : Globals} {prec : AiRecord}
    (h : prec.dpvt = (s.ai k).dpvt) : (s.set_ai k g prec).dpvt = s.dpvt := by
  rw [s.set_ai_dpvt, h]
  exact Function.update_eq_self (Rec.ai k) s.dpvt

theorem Ioc.set_ao_dpvt_self (s : Ioc) {k : ℕ} {g : Globals} {prec : AoRecord}
    (h : prec.dpvt = (s.ao k).dpvt) : (s.set_ao k g prec).dpvt = s.dpvt := by
  rw [s.set_ao_dpvt, h]
  exact Function.update_eq_self (Rec.ao k) s.dpvt

theorem Ioc.set_ai_text (s : Ioc) {k : ℕ} {g : Globals} {prec : AiRecord}
    (h : prec.inp_text = (s.ai k).inp_text) : (s.set_ai k g prec).text = s.text := by
  funext r
  rcases r with j | j
  · by_cases hj : j = k
    · subst hj
      simp [text, set_ai, h]
    · simp [text, set_ai, hj]
  · rfl

theorem Ioc.set_ao_text (s : Ioc) {k : ℕ} {g : Globals} {prec : AoRecord}
    (h : prec.out_text = (s.ao k).out_text) : (s.set_ao k g prec).text = s.text := by
  funext r
  rcases r with j | j
  · rfl
  · by_cases hj : j = k
    · subst hj
      simp [text, set_ao, h]
    · simp [text, set_ao, hj]

/-- The driver after an initialisation of `r` that left the descriptor `fd`: either nothing is stored,
or the number and the letter of the text are. -/
inductive Initialised (T : Target) (s : Ioc) (r : Rec) (fd : ℤ) (s' : Ioc) : Prop
  | refused : s'.text = s.text → s'.globals = { s.globals with global_fd_i2c := fd } →
      s'.dpvt = s.dpvt → (0 ≤ fd → s.accepted T r = none) → Initialised T s r fd s'
  | stored {n : ℤ} {c : Char} : s'.text = s.text →
      s'.globals = { s.globals with global_fd_i2c := fd }.store n c →
      s'.dpvt = Function.update s.dpvt r (some (slot n c)) → 0 ≤ fd →
      s.accepted T r = some (n, c) → Initialised T s r fd s'

theorem Initialised.fd {T : Target} {s s' : Ioc} {r : Rec} {fd : ℤ} (h : Initialised T s r fd s') :
    s'.globals.global_fd_i2c = fd := by
  rcases h with ⟨-, hg, -⟩ | ⟨-, hg, -⟩
  · rw [hg]
  · rw [hg]
    rfl

/-- The driver after a call that stores nothing in the private data. -/
structure SameDriver (s s' : Ioc) : Prop where
  text : s'.text = s.text
  globals : s'.globals = s.globals
  dpvt : s'.dpvt = s.dpvt

theorem SameDriver.trans {s s' s'' : Ioc} (h : SameDriver s s') (h' : SameDriver s' s'') :
    SameDriver s s'' :=
  ⟨h'.text.trans h.text, h'.globals.trans h.globals, h'.dpvt.trans h.dpvt⟩

theorem SameDriver.accepted {s s' : Ioc} (h : SameDriver s s') (T : Target) (r : Rec) :
    s'.accepted T r = s.accepted T r := by
  unfold Ioc.accepted
  rw [h.text]

/-- The private data of the record: its number and letter. -/
def Entry (g : Globals) (prec : DbCommon) (n : ℤ) (what : Char) : Prop :=
  ∃ i, prec.dpvt = some i ∧ g.private_data i = ⟨n, what⟩ ∧ 0 ≤ n ∧ n < 64

/-- The private data of every record that has some is the number and the letter of its own text. -/
def OwnEntries (T : Target) (s : Ioc) : Prop :=
  ∀ r i, s.dpvt r = some i → ∃ n ch, s.accepted T r = some (n, ch) ∧
    s.globals.private_data i = ⟨n, ch⟩

theorem OwnEntries.same {T : Target} {s s' : Ioc} (h : OwnEntries T s) (hs : SameDriver s s') :
    OwnEntries T s' := by
  intro r i hi
  rw [hs.dpvt] at hi
  rw [hs.accepted, hs.globals]
  exact h r i hi

/-- The operations that transfer something to or from the probe `addr`. -/
def ProbeCall (fd addr : ℤ) : DevOp → Prop
  | .read_temp_ds75 fd' addr' _ | .access_ds75_details fd' addr' _ _ _ _ => fd' = fd ∧ addr' = addr
  | _ => False

theorem read_detail_only (fd addr : ℤ) (what : Char) (val : Double) (cfg₀ : UInt8) :
    (read_detail fd addr what val cfg₀).Only (ProbeCall fd addr) := by
  have hop : ∀ {α : Type} (a b : Option Double) (c : Option UInt8) (f : Details → α),
      ((Dev.access_ds75_details fd addr a b c 'r').bind fun r => ret (f r)).Only
        (ProbeCall fd addr) := fun a b c f => ⟨⟨rfl, rfl⟩, fun _ => trivial⟩
  unfold read_detail
  exact only_ite (hop _ _ _ _) (only_ite (hop _ _ _ _) (only_ite (hop _ _ _ _) trivial))

theorem read_what_only (fd addr : ℤ) (what : Char) (val : Double) (cfg₀ : UInt8) :
    (read_what fd addr what val cfg₀).Only (ProbeCall fd addr) :=
  only_ite ⟨⟨rfl, rfl⟩, fun _ => trivial⟩ (read_detail_only fd addr what val cfg₀)

theorem write_what_only (T : Target) (fd addr : ℤ) (what : Char) (val : Double) :
    (write_what T fd addr what val).Only (ProbeCall fd addr) := by
  have hop : ∀ (a b : Option Double) (c : Option UInt8),
      ((Dev.access_ds75_details fd addr a b c 'w').bind fun r => ret r.status).Only
        (ProbeCall fd addr) := fun a b c => ⟨⟨rfl, rfl⟩, fun _ => trivial⟩
  unfold write_what
  exact only_ite (hop _ _ _) (only_ite (hop _ _ _) (only_ite (only_ite trivial (hop _ _ _)) trivial))

/-- The end of `read_ai`: the result for `ierr` and the value read. -/
def ai_result (prec : AiRecord) (r : ℤ × Double) : ℤ × AiRecord :=
  if r.1 = 0 then (2, { prec with val := r.2, udf := false })
  else (-1, { prec with val := r.2, udf := true })

/-- The end of `write_ao`: the result for `ierr`. -/
def ao_result (prec : AoRecord) (ierr : ℤ) : ℤ × AoRecord :=
  if ierr = 0 then (0, { prec with udf := false }) else (-1, { prec with udf := true })

theorem read_ai_eq (g : Globals) (prec : AiRecord) (cfg₀ : UInt8) :
    read_ai g prec cfg₀ = (private_entry g prec.toDbCommon).bind fun p =>
      (select_probe (p.address.tmod 8)).bind fun sel =>
        (if sel < 0 then ret (-1, prec.val)
          else read_what g.global_fd_i2c (p.address.tdiv 8) p.what prec.val cfg₀).bind fun r =>
        ret (ai_result prec r) := by
  have hend : ∀ r : ℤ × Double, (ret (ai_result prec r) : Prog DevSig (ℤ × AiRecord)) =
      if r.1 = 0 then ret (2, { prec with val := r.2, udf := false })
      else ret (-1, { prec with val := r.2, udf := true }) := by
    intro r
    unfold ai_result
    split <;> rfl
  unfold read_ai
  simp only [hend, ite_bind, ret_bind]
  rfl

theorem write_ao_eq (T : Target) (g : Globals) (prec : AoRecord) :
    write_ao T g prec = (private_entry g prec.toDbCommon).bind fun p =>
      (select_probe (p.address.tmod 8)).bind fun sel =>
        (if sel < 0 then ret (-1)
          else write_what T g.global_fd_i2c (p.address.tdiv 8) p.what prec.val).bind fun ierr =>
        ret (ao_result prec ierr) := by
  have hend : ∀ ierr : ℤ, (ret (ao_result prec ierr) : Prog DevSig (ℤ × AoRecord)) =
      if ierr = 0 then ret (0, { prec with udf := false })
      else ret (-1, { prec with udf := true }) := by
    intro ierr
    unfold ao_result
    split <;> rfl
  unfold write_ao
  simp only [hend, ite_bind, ret_bind]
  rfl

/-- The private data of a record splits its number into a stub and an address. -/
theorem dispatch_entry {α β : Type} {g : Globals} {prec : DbCommon} {n : ℤ} {what : Char}
    (hp : Entry g prec n what) (fail : α) (dispatch : ℤ → Char → Prog DevSig α)
    (result : α → Prog DevSig β) :
    ((private_entry g prec).bind fun p => (select_probe (p.address.tmod 8)).bind fun sel =>
      (if sel < 0 then ret fail else dispatch (p.address.tdiv 8) p.what).bind result) =
    (select_probe (n % 8)).bind fun sel =>
      (if sel < 0 then ret fail else dispatch (n / 8) what).bind result := by
  obtain ⟨i, hi, hentry, h0, -⟩ := hp
  have hprivate : private_entry g prec = ret ⟨n, what⟩ := by
    unfold private_entry
    rw [hi, ← hentry]
    rfl
  rw [hprivate, ret_bind]
  simp only [Int.tmod_eq_emod_of_nonneg h0, Int.tdiv_eq_ediv_of_nonneg h0]

theorem read_ai_entry {g : Globals} {prec : AiRecord} {n : ℤ} {what : Char}
    (hp : Entry g prec.toDbCommon n what) (cfg₀ : UInt8) :
    read_ai g prec cfg₀ = (select_probe (n % 8)).bind fun sel =>
      (if sel < 0 then ret (-1, prec.val)
        else read_what g.global_fd_i2c (n / 8) what prec.val cfg₀).bind fun r =>
      ret (ai_result prec r) := by
  rw [read_ai_eq]
  exact dispatch_entry hp _ (fun addr what => read_what g.global_fd_i2c addr what prec.val cfg₀) _

theorem write_ao_entry (T : Target) {g : Globals} {prec : AoRecord} {n : ℤ} {what : Char}
    (hp : Entry g prec.toDbCommon n what) :
    write_ao T g prec = (select_probe (n % 8)).bind fun sel =>
      (if sel < 0 then ret (-1)
        else write_what T g.global_fd_i2c (n / 8) what prec.val).bind fun ierr =>
      ret (ao_result prec ierr) := by
  rw [write_ao_eq]
  exact dispatch_entry hp _ (fun addr what => write_what T g.global_fd_i2c addr what prec.val) _

@[simp] theorem ai_result_dpvt (prec : AiRecord) (r : ℤ × Double) :
    (ai_result prec r).2.dpvt = prec.dpvt := by
  unfold ai_result
  split <;> rfl

@[simp] theorem ai_result_text (prec : AiRecord) (r : ℤ × Double) :
    (ai_result prec r).2.inp_text = prec.inp_text := by
  unfold ai_result
  split <;> rfl

@[simp] theorem ao_result_dpvt (prec : AoRecord) (ierr : ℤ) :
    (ao_result prec ierr).2.dpvt = prec.dpvt := by
  unfold ao_result
  split <;> rfl

@[simp] theorem ao_result_text (prec : AoRecord) (ierr : ℤ) :
    (ao_result prec ierr).2.out_text = prec.out_text := by
  unfold ao_result
  split <;> rfl

theorem ai_result_ok {prec : AiRecord} {r : ℤ × Double} (h : (ai_result prec r).1 = 2) :
    r.1 = 0 ∧ (ai_result prec r).2.val = r.2 := by
  by_cases h0 : r.1 = 0
  · unfold ai_result
    rw [if_pos h0]
    exact ⟨h0, rfl⟩
  · unfold ai_result at h
    rw [if_neg h0] at h
    simp at h

theorem ao_result_ok {prec : AoRecord} {ierr : ℤ} (h : (ao_result prec ierr).1 = 0) : ierr = 0 := by
  by_contra h0
  unfold ao_result at h
  rw [if_neg h0] at h
  simp at h

/-- The letters that `read_ai` and `init_record_ao` know, the temperature apart. -/
def DetailLetter (what : Char) : Prop := what = 'S' ∨ what = 'Y' ∨ what = 'C'

instance (what : Char) : Decidable (DetailLetter what) := by unfold DetailLetter; infer_instance

/-- The letters that `read_ai` knows. -/
def Reads (what : Char) : Prop := what = ' ' ∨ DetailLetter what

/-- The letters that `write_ao` knows, with a value in range. -/
def Writes (what : Char) (val : Double) : Prop :=
  what = 'H' ∨ what = 'L' ∨ what = 'C' ∧ ¬ (val < 0 ∨ 255 < val)

theorem read_what_of {what : Char} (h : Reads what) (fd addr : ℤ) (val : Double) (cfg₀ : UInt8) :
    ∃ o k, read_what fd addr what val cfg₀ = .vis o k ∧ ProbeCall fd addr o := by
  rcases h with rfl | rfl | rfl | rfl
  · exact ⟨_, _, rfl, rfl, rfl⟩
  · exact ⟨_, _, rfl, rfl, rfl⟩
  · exact ⟨_, _, rfl, rfl, rfl⟩
  · exact ⟨_, _, rfl, rfl, rfl⟩

theorem read_what_of_not {what : Char} (h : ¬ Reads what) (fd addr : ℤ) (val : Double)
    (cfg₀ : UInt8) : read_what fd addr what val cfg₀ = ret (1, val) := by
  unfold Reads at h
  rw [not_or] at h
  unfold read_what read_detail
  rw [if_neg h.1, if_neg (fun hS => h.2 (.inl hS)), if_neg (fun hY => h.2 (.inr (.inl hY))),
    if_neg (fun hC => h.2 (.inr (.inr hC)))]
  rfl

theorem write_what_of {T : Target} {what : Char} {val : Double} (h : Writes what val)
    (fd addr : ℤ) : ∃ o k, write_what T fd addr what val = .vis o k ∧ ProbeCall fd addr o := by
  unfold write_what
  rcases h with rfl | rfl | ⟨rfl, hrange⟩
  · exact ⟨_, _, rfl, rfl, rfl⟩
  · exact ⟨_, _, rfl, rfl, rfl⟩
  · rw [if_neg (by decide), if_neg (by decide), if_pos rfl, if_neg hrange]
    exact ⟨_, _, rfl, rfl, rfl⟩

theorem write_what_of_not {T : Target} {what : Char} {val : Double} (h : ¬ Writes what val)
    (fd addr : ℤ) : write_what T fd addr what val = ret 1 := by
  unfold Writes at h
  rw [not_or, not_or] at h
  obtain ⟨hH, hL, hC⟩ := h
  unfold write_what
  rw [if_neg hH, if_neg hL]
  by_cases hch : what = 'C'
  · rw [if_pos hch, if_pos (by by_contra hrange; exact hC ⟨hch, hrange⟩)]
    rfl
  · rw [if_neg hch]
    rfl

section Calls

variable {W : Type} {E : Env DevSig W} {G : W → DevOp → Prop}

/-- The operations of a selection. -/
def IsGpioWrite : DevOp → Prop
  | .gpio_write _ _ => True
  | _ => False

theorem select_probe_gpio_only (istub : ℤ) : (select_probe istub).Only IsGpioWrite := by
  refine only_ite trivial ⟨trivial, fun r₀ => only_ite trivial ⟨trivial, fun r₁ => ?_⟩⟩
  exact only_ite trivial ⟨trivial, fun r₂ => only_ite trivial trivial⟩

/-- A selection keeps a world that the pins are no part of. -/
theorem wp_select_keeps (hgpio : ∀ w gpio state r w', E w (.gpio_write gpio state) r w' → w' = w)
    (istub : ℤ) (w : W) :
    wp E (fun _ _ => True) (fun _ w' => w' = w) (select_probe istub) w := by
  refine wp_only (I := fun w' => w' = w) (fun w₁ o ho hw₁ => ⟨trivial, fun r w₂ he => ?_⟩)
    (select_probe_gpio_only istub) rfl
  cases o with
  | gpio_write gpio state => exact (hgpio w₁ gpio state r w₂ he).trans hw₁
  | _ => exact ho.elim

/-- **The rule of a selection**: what its writes have come to, one after the other. -/
theorem wp_select_rule {Q : ℤ → W → Prop} {I J : W → Prop} {istub : ℤ} {w : W}
    (hrange : istub < 0 ∨ istub > 7 → Q (-1) w)
    (h26 : G w (.gpio_write 26 (bit istub 0)) ∧ ∀ (r : ℤ) w',
      E w (.gpio_write 26 (bit istub 0)) r w' → (r < 0 → Q (-1) w') ∧ (0 ≤ r → I w'))
    (h46 : ∀ w, I w → G w (.gpio_write 46 (bit istub 1)) ∧ ∀ (r : ℤ) w',
      E w (.gpio_write 46 (bit istub 1)) r w' → (r < 0 → Q (-1) w') ∧ (0 ≤ r → J w'))
    (h65 : ∀ w, J w → G w (.gpio_write 65 (bit istub 2)) ∧ ∀ (r : ℤ) w',
      E w (.gpio_write 65 (bit istub 2)) r w' → (r < 0 → Q (-1) w') ∧ (0 ≤ r → Q 0 w')) :
    wp E G Q (select_probe istub) w := by
  unfold select_probe
  rw [wp_ite]
  refine ⟨hrange, fun _ => ⟨h26.1, fun r₀ w₀ he₀ => ?_⟩⟩
  show wp _ _ _ (if r₀ < 0 then _ else _) _
  rw [wp_ite]
  refine ⟨(h26.2 r₀ w₀ he₀).1, fun hr₀ => ?_⟩
  have hI := (h26.2 r₀ w₀ he₀).2 (Int.not_lt.mp hr₀)
  refine ⟨(h46 w₀ hI).1, fun r₁ w₁ he₁ => ?_⟩
  show wp _ _ _ (if r₁ < 0 then _ else _) _
  rw [wp_ite]
  refine ⟨((h46 w₀ hI).2 r₁ w₁ he₁).1, fun hr₁ => ?_⟩
  have hJ := ((h46 w₀ hI).2 r₁ w₁ he₁).2 (Int.not_lt.mp hr₁)
  refine ⟨(h65 w₁ hJ).1, fun r₂ w₂ he₂ => ?_⟩
  show wp _ _ _ (if r₂ < 0 then _ else _) _
  rw [wp_ite]
  have hend := (h65 w₁ hJ).2 r₂ w₂ he₂
  exact ⟨hend.1, fun hr₂ => hend.2 (Int.not_lt.mp hr₂)⟩

/-- A selection can succeed. -/
theorem returns_select {istub : ℤ} (h0 : 0 ≤ istub) (h8 : istub < 8) {w : W}
    (hgpio : ∀ gpio state, E w (.gpio_write gpio state) (0 : ℤ) w) :
    Returns E (select_probe istub) w 0 w := by
  unfold select_probe
  rw [if_neg (by omega)]
  refine returns_vis.mpr ⟨(0 : ℤ), w, hgpio _ _, returns_vis.mpr ⟨(0 : ℤ), w, hgpio _ _, ?_⟩⟩
  exact returns_vis.mpr ⟨(0 : ℤ), w, hgpio _ _, .refl _ _⟩

theorem wp_read_detail {fd addr : ℤ} {what : Char} {val : Double} {cfg₀ : UInt8}
    {Q : ℤ × Double → W → Prop} {w : W} {R : W → Prop} (hQ : ∀ r w, R w → Q r w)
    (hop : DetailLetter what → ∀ a b c, G w (.access_ds75_details fd addr a b c 'r') ∧
      ∀ r w', E w (.access_ds75_details fd addr a b c 'r') r w' → R w')
    (hno : ¬ DetailLetter what → R w) : wp E G Q (read_detail fd addr what val cfg₀) w := by
  have hcall : DetailLetter what → ∀ (a b : Option Double) (c : Option UInt8)
      (f : Details → ℤ × Double),
      wp E G Q ((Dev.access_ds75_details fd addr a b c 'r').bind fun r => ret (f r)) w :=
    fun hd a b c f => ⟨(hop hd a b c).1, fun r w' he => hQ _ _ ((hop hd a b c).2 r w' he)⟩
  unfold read_detail
  rw [wp_ite]
  refine ⟨fun hS => hcall (.inl hS) _ _ _ _, fun hS => ?_⟩
  rw [wp_ite]
  refine ⟨fun hY => hcall (.inr (.inl hY)) _ _ _ _, fun hY => ?_⟩
  rw [wp_ite]
  refine ⟨fun hC => hcall (.inr (.inr hC)) _ _ _ _, fun hC => ?_⟩
  exact hQ _ _ (hno fun h => by rcases h with h | h | h <;> contradiction)

theorem accepted_record (s : Ioc) (T : Target) (r : Rec) :
    s.accepted T r = accepted_link T (s.text r) := rfl

/-- **What an initialisation does to the private data.**  The only transfer is the read-back of an ao
record, and `R` holds of the world before and after it. -/
theorem wp_init {T : Target} {c : IocCall} (hc : c.is_init = true) {s : Ioc} {w : W}
    {Q : Ioc → W → Prop} {R : ℤ → W → Prop}
    (hmessage : ∀ w st m, G w (.recGblRecordError st m) ∧
      ∀ r w', E w (.recGblRecordError st m) r w' → w' = w)
    (hopen : s.globals.global_fd_i2c < 0 → G w (.open_i2c_bus 2))
    (hnull : ∀ fd w', BusOpened E s.globals w fd w' → 0 ≤ fd → s.text c.record = none →
      G w' (.fault .null_text))
    (hopened : ∀ fd w', BusOpened E s.globals w fd w' → R fd w')
    (hdetail : ∀ fd w' n ch k, BusOpened E s.globals w fd w' → 0 ≤ fd → c.record = .ao k →
      s.accepted T c.record = some (n, ch) → DetailLetter ch → ∀ a b cf,
      G w' (.access_ds75_details fd n a b cf 'r') ∧
        ∀ r w'', E w' (.access_ds75_details fd n a b cf 'r') r w'' → R fd w'')
    (hQ : ∀ fd w' s', R fd w' → Initialised T s c.record fd s' → Q s' w') :
    wp E G Q (c.prog T s) w := by
  rcases c with k | ⟨k, cfg₀⟩ | ⟨k, cfg₀⟩ | ⟨k, val⟩
  · show wp E G Q ((init_record_ai T s.globals (s.ai k)).bind fun r =>
      ret (s.set_ai k r.2.1 r.2.2)) w
    unfold init_record_ai
    rw [bind_eq, bind_assoc, wp_bind]
    refine wp_init_record_common hmessage hopen hnull ?_ ?_ ?_
    · intro fd w' hb hfd
      refine hQ fd w' _ (hopened fd w' hb) (.refused ?_ rfl ?_ fun h => absurd h (by omega))
      · exact s.set_ai_text rfl
      · exact s.set_ai_dpvt_self rfl
    · intro fd w' hb hfd hrej
      refine hQ fd w' _ (hopened fd w' hb) (.refused ?_ rfl ?_ fun _ => hrej)
      · exact s.set_ai_text rfl
      · exact s.set_ai_dpvt_self rfl
    · intro fd w' n ch hb hfd hacc
      refine hQ fd w' _ (hopened fd w' hb) (.stored ?_ rfl ?_ hfd hacc)
      · exact s.set_ai_text rfl
      · exact s.set_ai_dpvt _ _ _
  · show wp E G Q ((init_record_ao T s.globals (s.ao k) cfg₀).bind fun r =>
      ret (s.set_ao k r.2.1 r.2.2)) w
    unfold init_record_ao
    simp only [bind_eq, bind_assoc]
    rw [wp_bind]
    refine wp_init_record_common hmessage hopen hnull ?_ ?_ ?_
    · intro fd w' hb hfd
      refine hQ fd w' _ (hopened fd w' hb) (.refused ?_ rfl ?_ fun h => absurd h (by omega))
      · exact s.set_ao_text rfl
      · exact s.set_ao_dpvt_self rfl
    · intro fd w' hb hfd hrej
      refine hQ fd w' _ (hopened fd w' hb) (.refused ?_ rfl ?_ fun _ => hrej)
      · exact s.set_ao_text rfl
      · exact s.set_ao_dpvt_self rfl
    · intro fd w' n ch hb hfd hacc
      -- the record after the common part, whatever the read-back makes of its other fields
      have hstored : ∀ (w'' : W) (prec : AoRecord), R fd w'' → prec.dpvt = some (slot n ch) →
          prec.out_text = (s.ao k).out_text →
          Q (s.set_ao k ({ s.globals with global_fd_i2c := fd }.store n ch) prec) w'' := by
        intro w'' prec hR hd ht
        refine hQ fd w'' _ hR (.stored (s.set_ao_text ht) rfl ?_ hfd hacc)
        rw [s.set_ao_dpvt, hd]
        rfl
      simp only [private_entry, pure_eq, ret_bind, Globals.store_self, ne_eq, not_true_eq_false,
        if_false]
      rw [ite_bind, wp_ite]
      constructor
      · intro _
        refine ⟨(hmessage w' _ _).1, fun r w'' he => ?_⟩
        rw [(hmessage w' _ _).2 r w'' he]
        exact hstored w' _ (hopened fd w' hb) rfl rfl
      · intro _
        rw [bind_assoc, wp_bind]
        refine wp_read_detail (R := R fd) (fun r w'' hR => ?_)
          (fun hd a b cf => hdetail fd w' n ch k hb hfd rfl hacc hd a b cf)
          (fun _ => hopened fd w' hb)
        rw [ite_bind, wp_ite]
        exact ⟨fun _ => hstored w'' _ hR rfl rfl, fun _ => hstored w'' _ hR rfl rfl⟩
  · exact nomatch hc
  · exact nomatch hc

/-- **What a processing does**: the private data of the record is read, its stub is selected, and if
that works its probe is called, all calls keeping `K`.  The private data stays. -/
theorem wp_process {T : Target} {c : IocCall} (hc : c.is_init = false) {s : Ioc} {w : W}
    {Q : Ioc → W → Prop} {K R : W → Prop}
    (hnull : s.dpvt c.record = none → G w (.fault .null_dpvt))
    (hselect : ∀ i, s.dpvt c.record = some i →
      wp E G (fun sel w' => R w' ∧ (0 ≤ sel → K w'))
        (select_probe ((s.globals.private_data i).address.tmod 8)) w)
    (hprobe : ∀ i, s.dpvt c.record = some i → ∀ w' o,
      ProbeCall s.globals.global_fd_i2c ((s.globals.private_data i).address.tdiv 8) o → K w' →
      G w' o ∧ ∀ r w'', E w' o r w'' → K w'')
    (hKR : ∀ w', K w' → R w') (hQ : ∀ w' s', R w' → SameDriver s s' → Q s' w') :
    wp E G Q (c.prog T s) w := by
  -- the dispatch, once the stub is selected or not
  have hdispatch : ∀ {α : Type} (i : ℤ), s.dpvt c.record = some i → ∀ (sel : ℤ) (w' : W) (fail : α)
      (p : Prog DevSig α),
      p.Only (ProbeCall s.globals.global_fd_i2c ((s.globals.private_data i).address.tdiv 8)) →
      R w' ∧ (0 ≤ sel → K w') → wp E G (fun _ w'' => R w'') (if sel < 0 then ret fail else p) w' := by
    intro α i hi sel w' fail p hp hw
    rw [wp_ite]
    refine ⟨fun _ => hw.1, fun hsel => ?_⟩
    have hK := wp_only (G := G) (E := E) (fun w' o ho => hprobe i hi w' o ho) hp
      (hw.2 (Int.not_lt.mp hsel))
    exact wp_conseq hK fun _ w'' => hKR w''
  rcases c with k | ⟨k, cfg₀⟩ | ⟨k, cfg₀⟩ | ⟨k, val⟩
  · exact nomatch hc
  · exact nomatch hc
  · show wp E G Q ((read_ai s.globals (s.ai k) cfg₀).bind fun r => ret (s.set_ai k s.globals r.2)) w
    rw [read_ai_eq, wp_bind, wp_bind]
    unfold private_entry
    rcases hi : (s.ai k).dpvt with _ | i
    · exact ⟨hnull hi, nofun⟩
    · show wp E G _ ((select_probe _).bind _) w
      rw [wp_bind]
      refine wp_conseq (hselect i hi) fun sel w' hw => ?_
      rw [wp_bind]
      refine wp_conseq (hdispatch i hi sel w' _ _ (read_what_only _ _ _ _ _) hw) fun r w'' hR => ?_
      refine hQ w'' _ hR ⟨s.set_ai_text (ai_result_text _ _), rfl, ?_⟩
      exact s.set_ai_dpvt_self (ai_result_dpvt _ _)
  · show wp E G Q ((write_ao T s.globals { s.ao k with val := val }).bind fun r =>
      ret (s.set_ao k s.globals r.2)) w
    rw [write_ao_eq, wp_bind, wp_bind]
    unfold private_entry
    rcases hi : (s.ao k).dpvt with _ | i
    · exact ⟨hnull hi, nofun⟩
    · show wp E G _ ((select_probe _).bind _) w
      rw [wp_bind]
      refine wp_conseq (hselect i hi) fun sel w' hw => ?_
      rw [wp_bind]
      refine wp_conseq (hdispatch i hi sel w' _ _ (write_what_only _ _ _ _ _) hw) fun r w'' hR => ?_
      refine hQ w'' _ hR ⟨s.set_ao_text (ao_result_text _ _), rfl, ?_⟩
      exact s.set_ao_dpvt_self (ao_result_dpvt _ _)

/-- The operation is no invalid access. -/
def NotFault (o : DevOp) : Prop := ∀ f, o ≠ .fault f

theorem select_probe_only (istub : ℤ) : (select_probe istub).Only NotFault := by
  have hgpio : ∀ gpio state, NotFault (.gpio_write gpio state) := fun _ _ _ => nofun
  unfold select_probe
  refine only_ite trivial ⟨hgpio _ _, fun _ => only_ite trivial ⟨hgpio _ _, fun _ => ?_⟩⟩
  exact only_ite trivial ⟨hgpio _ _, fun _ => only_ite trivial trivial⟩

/-- **A processing leaves the private data as it is**, and accesses nothing invalid unless the record
has none. -/
theorem wp_same {T : Target} {c : IocCall} (hc : c.is_init = false) {s : Ioc} {w : W}
    (hG : ∀ w o, NotFault o → G w o)
    (hnull : s.dpvt c.record = none → G w (.fault .null_dpvt)) :
    wp E G (fun s' _ => SameDriver s s') (c.prog T s) w := by
  refine wp_process (K := fun _ => True) (R := fun _ => True) hc hnull (fun i _ => ?_) ?_
    (fun _ _ => trivial) (fun _ _ _ h => h)
  · have hkeep : ∀ (w : W) (o : DevOp), NotFault o → True → G w o ∧ ∀ r w', E w o r w' → True :=
      fun w o ho _ => ⟨hG w o ho, fun _ _ _ => trivial⟩
    have hselect := wp_only (S := DevSig) (w := w) hkeep
      (select_probe_only ((s.globals.private_data i).address.tmod 8)) trivial
    exact wp_conseq hselect fun _ _ _ => ⟨trivial, fun _ => trivial⟩
  · intro i _ w' o ho _
    refine ⟨hG w' o fun f hf => ?_, fun _ _ _ => trivial⟩
    rw [hf] at ho
    exact ho

end Calls

end RackmonIoc.Driver
