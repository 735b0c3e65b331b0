import RackmonIoc.Bus.PinFiles
import RackmonIoc.Temp.Routing

/-!
# Success and the mux

`gpio_write` looks at the result of the second `fputc` and not at that of `fclose`, which makes the
write to the kernel.  So `select_probe` can report success while a pin has stayed where it was, and the
call goes on with another stub.

A run is any sequence of initialisations and processings from the start of the program, under every
outcome of every step (`pinBus`).
-/

namespace RackmonIoc.Temp

open Program CLib Base Driver Bus Prog

/-! ### Runs -/

/-- The program of a call, with the status that it returns. -/
def report (T : Target) : IocCall → Ioc → Prog DevSig (ℤ × Ioc)
  | .init_record_ai k, s => do
    let r ← Driver.init_record_ai T s.globals (s.ai k)
    return (r.1, s.set_ai k r.2.1 r.2.2)
  | .init_record_ao k cfg₀, s => do
    let r ← Driver.init_record_ao T s.globals (s.ao k) cfg₀
    return (r.1, s.set_ao k r.2.1 r.2.2)
  | .read_ai k cfg₀, s => do
    let r ← Driver.read_ai s.globals (s.ai k) cfg₀
    return (r.1, s.set_ai k s.globals r.2)
  | .write_ao k val, s => do
    let r ← Driver.write_ao T s.globals { s.ao k with val := val }
    return (r.1, s.set_ao k s.globals r.2)

/-- A call that has been made: its status, and the events in it. -/
structure Made where
  call : IocCall
  status : ℤ
  log : List PinEvent

/-- **A sequential run of calls.** -/
inductive Calls (T : Target) : Ioc → PinFiles → List Made → Prop
  | nil (s : Ioc) (w : PinFiles) : Calls T s w []
  | cons {c : IocCall} {s s' : Ioc} {w w' : PinFiles} {status : ℤ} {ms : List Made} :
      Returns pinBus ((report T c s).interp (expand T)) { w with log := [] } (status, s') w' →
      Calls T s' w' ms → Calls T s w (⟨c, status, w'.log⟩ :: ms)

/-- A `read_ai` or `write_ao` that reports success. -/
def Made.Success (m : Made) : Prop :=
  match m.call with
  | .read_ai _ _ => m.status = 2
  | .write_ao _ _ => m.status = 0
  | _ => False

/-- Every transfer in the log is made with the stub. -/
def ToStub (istub : ℤ) (log : List PinEvent) : Prop :=
  ∀ stub : ℕ, .transfer stub ∈ log → (stub : ℤ) = istub

/-- The call exchanged its data with the stub of its own record. -/
def Made.OwnStub (T : Target) (s : Ioc) (m : Made) : Prop :=
  ∀ n ch, s.accepted T m.call.record = some (n, ch) → ToStub (n % 8) m.log

/-- **Success means the mux really switched.** -/
def SuccessSwitches (T : Target) : Prop :=
  (∀ istub w w', Returns pinBus ((select_probe istub).interp (expand T)) w 0 w' →
    mux_holds w'.pin istub) ∧
  ∀ s w ms, (∀ r, s.dpvt r = none) → Calls T s w ms → ∀ m ∈ ms, m.Success → m.OwnStub T s

variable {T : Target}

/-! ### The private data along a run -/

theorem report_prog (c : IocCall) (s : Ioc) :
    ((report T c s).bind fun r => ret r.2) = c.prog T s := by
  cases c <;> simp only [report, IocCall.prog, bind_eq, pure_eq, bind_assoc, ret_bind]

theorem pinDev_message {w w' : PinFiles} {st : ℤ} {m : String} {r : Unit}
    (h : pinDev T w (.recGblRecordError st m) r w') : w' = w := by
  obtain ⟨r', w₁, he, hr⟩ := returns_vis.mp h
  obtain ⟨rfl, rfl⟩ := returns_ret.mp hr
  exact he

/-- A call keeps the numbers in the private data. -/
theorem numbered_report {c : IocCall} {s₀ s s' : Ioc} {w w' : PinFiles} {status : ℤ}
    (h : Numbered T s₀ s) (hrun : Returns (pinDev T) (report T c s) w (status, s') w') :
    Numbered T s₀ s' := by
  have hprog : Returns (pinDev T) (c.prog T s) w s' w' := by
    rw [← report_prog]
    exact returns_bind.mpr ⟨_, _, hrun, .refl _ _⟩
  refine wp_returns (G := fun _ _ => True) (Q := fun s' _ => Numbered T s₀ s') ?_ hprog
  rcases hc : c.is_init with _ | _
  · refine wp_process (K := fun _ => True) (R := fun _ => True) hc (fun _ => trivial) ?_ ?_
      (fun _ _ => trivial) (fun _ _ _ hs => h.same hs)
    · exact fun _ _ => wp_conseq wp_true fun _ _ _ => ⟨trivial, fun _ => trivial⟩
    · exact fun _ _ _ _ _ _ => ⟨trivial, fun _ _ _ => trivial⟩
  · refine wp_init (R := fun _ _ => True) hc (fun w st m => ⟨trivial, fun r w' he => ?_⟩)
      (fun _ => trivial) (fun _ _ _ _ _ => trivial) (fun _ _ _ => trivial) ?_
      (fun fd w' s' _ hs => h.initialised hs)
    · exact pinDev_message he
    · exact fun _ _ _ _ _ _ _ _ _ _ _ _ _ => ⟨trivial, fun _ _ _ => trivial⟩

/-- The private data can be read, if the call returns. -/
theorem dpvt_of_returns {W : Type} {E : Env DevSig W} {g : Globals} {prec : DbCommon} {w w' : W}
    {p : my_dpvt_s} (h : Returns E (private_entry g prec) w p w') :
    ∃ i, prec.dpvt = some i ∧ p = g.private_data i := by
  unfold private_entry at h
  cases hi : prec.dpvt with
  | none =>
    rw [hi] at h
    obtain ⟨r, -⟩ := returns_vis.mp h
    exact r.elim
  | some i =>
    rw [hi] at h
    exact ⟨i, rfl, (returns_ret.mp h).1⟩

/-! ### One call -/

/-- **After a selection that reports success**, the transfers go to the stub if and only if the writes
to the pins were carried out. -/
theorem toStub_iff {w w₁ w₂ : PinFiles} {istub : ℤ} {ok₀ ok₁ ok₂ : Bool} {m : ℕ} (h0 : 0 ≤ istub)
    (h8 : istub < 8) (hlog : w.log = []) (hsel : Selected w w₁ istub ok₀ ok₁ ok₂)
    (htr : Transferred w₁ w₂ m) (hm : 0 < m) : ToStub istub w₂.log ↔ Carried w₂.log := by
  have hw₂ : w₂.log = selection w istub ok₀ ok₁ ok₂ ++
      List.replicate m (.transfer (mux_stub w₁.pin)) := by
    rw [htr.2, hsel.log, hlog, List.nil_append]
  have hto : ToStub istub w₂.log ↔ (mux_stub w₁.pin : ℤ) = istub := by
    rw [hw₂]
    constructor
    · intro h
      apply h
      exact List.mem_append_right _ (List.mem_replicate.mpr ⟨by omega, rfl⟩)
    · rintro h stub hmem
      simp only [selection, List.mem_append, List.mem_cons, List.mem_replicate, reduceCtorEq,
        List.not_mem_nil, or_self, false_or, PinEvent.transfer.injEq] at hmem
      rw [hmem.2, h]
  have hcarried : Carried w₂.log ↔ Carried (selection w istub ok₀ ok₁ ok₂) := by
    rw [hw₂]
    unfold Carried
    simp only [List.mem_append, List.mem_replicate, reduceCtorEq, and_false, or_false]
  rw [hto, hcarried, mux_stub_eq_iff h0 h8, hsel.holds_iff]

/-- **A processing that reports success** has selected its stub with success, and transferred
something. -/
theorem wp_dispatch_pins {α β : Type} {istub : ℤ} {fail : α} {p : Prog DevSig α} {result : α → β}
    (status : α → ℤ) (Success : β → Prop) {w : PinFiles} (h0 : 0 ≤ istub) (h8 : istub < 8)
    (hlog : w.log = [])
    (hp : ∀ w, wp (pinDev T) (fun _ _ => True)
      (fun r w' => ∃ m, Transferred w w' m ∧ (status r = 0 → 0 < m)) p w)
    (hfail : status fail ≠ 0) (hresult : ∀ r, Success (result r) → status r = 0) :
    wp (pinDev T) (fun _ _ => True)
      (fun x w' => Success x → (ToStub istub w'.log ↔ Carried w'.log))
      ((select_probe istub).bind fun sel =>
        (if sel < 0 then ret fail else p).bind fun r => ret (result r)) w := by
  rw [wp_bind]
  refine wp_conseq (wp_select_pins istub w) fun sel w₁ hsel => ?_
  rw [wp_bind, wp_ite]
  constructor
  · intro _ hsuccess
    exact absurd (hresult _ hsuccess) hfail
  · intro hnn
    refine wp_conseq (hp w₁) fun r w₂ htr hsuccess => ?_
    obtain ⟨ok₀, ok₁, ok₂, hselected⟩ := hsel (Int.not_lt.mp hnn)
    obtain ⟨m, htransferred, hm⟩ := htr
    exact toStub_iff h0 h8 hlog hselected htransferred (hm (hresult r hsuccess))

section Call

variable {s₀ s s' : Ioc} {w w' : PinFiles} {status : ℤ}

theorem read_ai_switches {k : ℕ} {cfg₀ : UInt8} (h : Numbered T s₀ s) (hlog : w.log = [])
    (hrun : Returns (pinDev T) (report T (.read_ai k cfg₀) s) w (status, s') w')
    (hstatus : status = 2) :
    ∃ n ch, s₀.accepted T (.ai k) = some (n, ch) ∧ (ToStub (n % 8) w'.log ↔ Carried w'.log) := by
  obtain ⟨r, w₁, hread, hend⟩ := returns_bind.mp hrun
  obtain ⟨hresult, rfl⟩ := returns_ret.mp hend
  obtain rfl : status = r.1 := congrArg Prod.fst hresult
  rw [read_ai_eq] at hread
  obtain ⟨p, w₂, hprivate, -⟩ := returns_bind.mp hread
  obtain ⟨i, hi, -⟩ := dpvt_of_returns hprivate
  obtain ⟨n, ch, hacc, -, hn⟩ := h.entry (.ai k) i hi
  obtain ⟨hn0, hn64⟩ := accepted_link_range hacc
  have hentry : Entry s.globals (s.ai k).toDbCommon n (s.globals.private_data i).what :=
    ⟨i, hi, by rw [← hn], hn0, hn64⟩
  rw [← read_ai_eq, read_ai_entry hentry] at hread
  refine ⟨n, ch, hacc, ?_⟩
  have hswitch := wp_returns (wp_dispatch_pins Prod.fst (fun r => r.1 = 2)
    (by omega) (by omega) hlog (fun w => wp_read_what_pins _ _ _ w) (by simp)
    (fun r hr => (ai_result_ok hr).1)) hread
  exact hswitch hstatus

theorem write_ao_switches {k : ℕ} {val : Double} (h : Numbered T s₀ s) (hlog : w.log = [])
    (hrun : Returns (pinDev T) (report T (.write_ao k val) s) w (status, s') w')
    (hstatus : status = 0) :
    ∃ n ch, s₀.accepted T (.ao k) = some (n, ch) ∧ (ToStub (n % 8) w'.log ↔ Carried w'.log) := by
  obtain ⟨r, w₁, hwrite, hend⟩ := returns_bind.mp hrun
  obtain ⟨hresult, rfl⟩ := returns_ret.mp hend
  obtain rfl : status = r.1 := congrArg Prod.fst hresult
  rw [write_ao_eq] at hwrite
  obtain ⟨p, w₂, hprivate, -⟩ := returns_bind.mp hwrite
  obtain ⟨i, hi, -⟩ := dpvt_of_returns hprivate
  obtain ⟨n, ch, hacc, -, hn⟩ := h.entry (.ao k) i hi
  obtain ⟨hn0, hn64⟩ := accepted_link_range hacc
  have hentry : Entry s.globals { s.ao k with val := val }.toDbCommon n
      (s.globals.private_data i).what := ⟨i, hi, by rw [← hn], hn0, hn64⟩
  rw [← write_ao_eq, write_ao_entry T hentry] at hwrite
  refine ⟨n, ch, hacc, ?_⟩
  have hswitch := wp_returns (wp_dispatch_pins id (fun r => r.1 = 0)
    (by omega) (by omega) hlog (fun w => wp_write_what_pins _ _ w) (by simp)
    (fun r hr => ao_result_ok hr)) hwrite
  exact hswitch hstatus

/-- **A call that reports success** exchanged its data with its own stub if and only if the writes to
the pins were carried out. -/
theorem ownStub_iff {c : IocCall} (h : Numbered T s₀ s) (hlog : w.log = [])
    (hrun : Returns (pinDev T) (report T c s) w (status, s') w')
    (hsuccess : (⟨c, status, w'.log⟩ : Made).Success) :
    (⟨c, status, w'.log⟩ : Made).OwnStub T s₀ ↔ Carried w'.log := by
  have hown : ∃ n ch, s₀.accepted T c.record = some (n, ch) ∧
      (ToStub (n % 8) w'.log ↔ Carried w'.log) := by
    cases c with
    | read_ai k cfg₀ => exact read_ai_switches h hlog hrun hsuccess
    | write_ao k val => exact write_ao_switches h hlog hrun hsuccess
    | _ => exact hsuccess.elim
  obtain ⟨n, ch, hacc, hiff⟩ := hown
  rw [← hiff]
  constructor
  · exact fun hstub => hstub n ch hacc
  · intro hto n' ch' hacc'
    obtain ⟨rfl, -⟩ := Prod.mk.inj (Option.some.inj (hacc.symm.trans hacc'))
    exact hto

end Call

/-! ### The law -/

/-- Every call of a run that reports success. -/
theorem calls_ownStub_iff {s₀ s : Ioc} {w : PinFiles} {ms : List Made} (h : Numbered T s₀ s)
    (hcalls : Calls T s w ms) : ∀ m ∈ ms, m.Success → (m.OwnStub T s₀ ↔ Carried m.log) := by
  induction hcalls with
  | nil s w => exact fun m hm => nomatch hm
  | cons hrun _ ih =>
    rw [returns_interp] at hrun
    intro m hm hsuccess
    rcases List.mem_cons.mp hm with rfl | hm
    · exact ownStub_iff h rfl hrun hsuccess
    · exact ih (numbered_report h hrun) m hm hsuccess

theorem numbered_start {s : Ioc} (h : ∀ r, s.dpvt r = none) : Numbered T s s where
  text := rfl
  entry r i hi := by
    rw [h r] at hi
    exact nomatch hi

/-- **When success means that the mux switched.**  A selection that returns 0 has switched the mux if and
only if each of its writes was taken by the kernel or found its pin at the level; and in a run from the
start of the program, all calls that report success exchanged their data with their own stub if and only
if the same holds of the writes that these calls made. -/
theorem success_switches_iff :
    (∀ istub w w', w.log = [] → Returns pinBus ((select_probe istub).interp (expand T)) w 0 w' →
      (mux_holds w'.pin istub ↔ Carried w'.log)) ∧
    ∀ s w ms, (∀ r, s.dpvt r = none) → Calls T s w ms →
      ((∀ m ∈ ms, m.Success → m.OwnStub T s) ↔ ∀ m ∈ ms, m.Success → Carried m.log) := by
  constructor
  · intro istub w w' hlog hrun
    rw [returns_interp] at hrun
    have hselect := wp_returns (wp_select_pins istub w) hrun
    obtain ⟨ok₀, ok₁, ok₂, hselected⟩ := hselect (le_refl 0)
    rw [hselected.holds_iff, hselected.log, hlog, List.nil_append]
  · intro s w ms hstart hcalls
    have hall := calls_ownStub_iff (numbered_start hstart) hcalls
    constructor
    · exact fun h m hm hsuccess => (hall m hm hsuccess).mp (h m hm hsuccess)
    · exact fun h m hm hsuccess => (hall m hm hsuccess).mpr (h m hm hsuccess)

/-! ### The temperature of probe 1 -/

/-- An ai record with the text "1", and all pins low. -/
def oneRecord : Ioc where
  globals := Globals.init
  ai _ := { (default : AiRecord) with inp_text := some ['1'] }
  ao _ := default

def lowPins : PinFiles := ⟨fun _ => false, [], 'r', [], []⟩

/-- A target with an unsigned plain `char`. -/
def armTarget : Target := ⟨false, fun _ => 0, id⟩

/-- The initialisation of the record and a `read_ai`, where the kernel takes the writes to the pins if
`ok`: the status of the read, and the events in it. -/
def readOne (ok : Bool) : Option (ℤ × List PinEvent) := do
  let x ← exec (pinAnswers ok)
    ((report armTarget (.init_record_ai 0) oneRecord).interp (expand armTarget))
    { lowPins with log := [] }
  let y ← exec (pinAnswers ok) ((report armTarget (.read_ai 0 0) x.1.2).interp (expand armTarget))
    { x.2 with log := [] }
  return (y.1.1, y.2.log)

theorem calls_of_readOne {ok : Bool} {status : ℤ} {log : List PinEvent}
    (h : readOne ok = some (status, log)) :
    ∃ m₀, Calls armTarget oneRecord lowPins [m₀, ⟨.read_ai 0 0, status, log⟩] ∧ ¬ m₀.Success := by
  unfold readOne at h
  simp only [Option.bind_eq_bind, Option.bind_eq_some_iff] at h
  obtain ⟨⟨⟨st, s₁⟩, w₁⟩, hx, ⟨⟨st', s₂⟩, w₂⟩, hy, hend⟩ := h
  obtain ⟨rfl, rfl⟩ := Prod.mk.inj (Option.some.inj hend)
  have hinit := returns_of_exec (pinBus_of_answers ok) hx
  have hread := returns_of_exec (pinBus_of_answers ok) hy
  exact ⟨⟨.init_record_ai 0, st, w₁.log⟩, .cons hinit (.cons hread (.nil _ _)), id⟩

/-- The kernel takes every write: the transfers go to stub 1. -/
theorem readOne_taken : readOne true = some (2, [.kernel_write false true true,
    .kernel_write false false true, .kernel_write false false true, .transfer 1, .transfer 1]) := by
  rfl

/-- The kernel refuses every write: the read succeeds, and its transfers go to stub 0. -/
theorem readOne_refused : readOne false = some (2, [.kernel_write false true false,
    .kernel_write false false false, .kernel_write false false false, .transfer 0,
    .transfer 0]) := by
  rfl

/-- With every write taken, the read of probe 1 exchanges its data with stub 1. -/
theorem success_switches_taken : ∃ m₀ m, Calls armTarget oneRecord lowPins [m₀, m] ∧ m.Success ∧
    m.OwnStub armTarget oneRecord := by
  obtain ⟨m₀, hcalls, hm₀⟩ := calls_of_readOne readOne_taken
  refine ⟨m₀, _, hcalls, rfl, ?_⟩
  refine (success_switches_iff.2 oneRecord lowPins _ ?_ hcalls).mpr ?_ _ (by simp) rfl
  · intro r
    cases r <;> rfl
  · intro m hm hsuccess before level ok hmem
    rcases List.mem_cons.mp hm with rfl | hm
    · exact absurd hsuccess hm₀
    · obtain rfl := List.mem_singleton.mp hm
      simp only [List.mem_cons, PinEvent.kernel_write.injEq, reduceCtorEq, List.not_mem_nil,
        or_self, or_false] at hmem
      left
      rcases hmem with ⟨-, -, hok⟩ | ⟨-, -, hok⟩
      · exact hok
      · exact hok

/-- With the write to pin 26 refused, the read of probe 1 reports success and reads stub 0. -/
theorem not_success_switches : ¬ SuccessSwitches armTarget := by
  rintro ⟨-, hrun⟩
  obtain ⟨m₀, hcalls, -⟩ := calls_of_readOne readOne_refused
  have hstart : ∀ r, oneRecord.dpvt r = none := by
    intro r
    cases r <;> rfl
  have hown := hrun oneRecord lowPins _ hstart hcalls _
    (List.mem_cons_of_mem m₀ List.mem_cons_self) rfl
  have hacc : oneRecord.accepted armTarget (.ai 0) = some (1, ' ') := by decide
  have hzero := hown 1 ' ' hacc 0 (by simp)
  omega

end RackmonIoc.Temp
