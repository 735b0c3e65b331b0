import Mathlib.Tactic.SplitIfs
import RackmonIoc.Bus.Lock
import RackmonIoc.Program.InOrder

/-!
# Access to the details

The two `access_..._details` under every outcome of every transfer.  The world is the log of the calls
on the bus device: a transfer of `n` bytes returns a number from -1 to `n`, and a read stores any bytes.

A call handles its requested fields in order (`InOrder`), each by an `Exchange`.

* `wp_write_field` and `wp_read_field` are the handling of one field;
* `wp_access_details` is the handling of a call, and `details_exact` what it means for the registers and
  for the destinations.
-/

namespace RackmonIoc.Bus

open Program CLib Driver Prog

/-! ### The log -/

/-- A call on the bus device, with its outcome. -/
inductive Event where
  | ioctl (fd slave status : ℤ)
  | write (fd : ℤ) (buf : List UInt8) (status : ℤ)
  | read (fd : ℤ) (n : ℕ) (rd : ReadReply)
  deriving DecidableEq

/-- **Every outcome of every transfer**, with the log of the calls. -/
def busLog : Env BusSig (List Event) := fun w o r w' =>
  match o, r with
  | .ioctl fd slave, r => w' = w ++ [.ioctl fd slave r]
  | .write fd buf, r => -1 ≤ r ∧ r ≤ (buf.length : ℤ) ∧ w' = w ++ [.write fd buf r]
  | .read fd n, r => -1 ≤ r.status ∧ r.status ≤ n ∧ w' = w ++ [.read fd n r]
  | _, _ => w' = w

/-! ### Fields -/

/-- A field of a thermometer: its register, and the bytes that a write sends to it. -/
structure Field where
  reg : UInt8
  bytes : List UInt8

/-- The handling of a field: the status of its write in mode 'w', else the status of the pointer write
and the reply to the read. -/
inductive Exchange where
  | sent (f : Field) (status : ℤ)
  | got (f : Field) (status : ℤ) (rd : ReadReply)

namespace Exchange

def field : Exchange → Field
  | sent f _ | got f _ _ => f

/-- The calls on the device. -/
def events (fd : ℤ) : Exchange → List Event
  | sent f status => [.write fd (f.reg :: f.bytes) status]
  | got f status rd => [.write fd [f.reg] status, .read fd f.bytes.length rd]

/-- Every transfer is complete. -/
def Complete : Exchange → Prop
  | sent f status => status = f.bytes.length + 1
  | got f status rd => status = 1 ∧ rd.status = f.bytes.length

/-- Nothing is read in mode 'w', and nothing but the pointer is written in any other. -/
def OfMode (mode : Char) : Exchange → Prop
  | sent _ _ => mode = 'w'
  | got _ _ _ => mode ≠ 'w'

/-- The exchange is for the field, in the mode. -/
def For (mode : Char) (f : Field) (x : Exchange) : Prop := x.field = f ∧ x.OfMode mode

/-- The bytes received from a register, by transfers that are all complete. -/
def received (reg : UInt8) : Exchange → Option (List UInt8)
  | sent _ _ => none
  | got f status rd =>
    if f.reg = reg ∧ status = 1 ∧ rd.status = f.bytes.length then some rd.data else none

theorem received_of_ne {reg : UInt8} {x : Exchange} (h : x.field.reg ≠ reg) :
    x.received reg = none := by
  cases x with
  | sent f status => rfl
  | got f status rd => exact if_neg fun hx => h hx.1

theorem for_unique {mode : Char} {f g : Field} {x : Exchange} (hf : For mode f x)
    (hg : For mode g x) : f = g :=
  hf.1.symm.trans hg.1

end Exchange

/-- The exchanges of a call handle its fields in order. -/
abbrev Handled (mode : Char) : List Field → List Exchange → Bool → Prop :=
  InOrder (Exchange.For mode) Exchange.Complete

/-- The bytes received from a register in a call. -/
def received (reg : UInt8) (xs : List Exchange) : Option (List UInt8) :=
  xs.findSome? (·.received reg)

theorem received_append (reg : UInt8) (xs ys : List Exchange) :
    received reg (xs ++ ys) = (received reg xs).or (received reg ys) :=
  List.findSome?_append

/-- Nothing is received from a register that is not asked for. -/
theorem received_none {reg : UInt8} {mode : Char} {fs : List Field} {xs : List Exchange} {ok : Bool}
    (h : Handled mode fs xs ok) (hreg : ∀ f ∈ fs, f.reg ≠ reg) : received reg xs = none := by
  unfold received
  rw [List.findSome?_eq_none_iff]
  intro x hx
  obtain ⟨f, hf, hfor⟩ := h.exists_for x hx
  apply Exchange.received_of_ne
  rw [hfor.1]
  exact hreg f hf

/-! ### One field -/

section Steps

variable {T : Target} {fd : ℤ} {L : List Event}

/-- The log after the fields have been handled. -/
def Logged (fd : ℤ) (mode : Char) (fs : List Field) (L : List Event) (ok : Bool)
    (xs : List Exchange) (L' : List Event) : Prop :=
  L' = L ++ xs.flatMap (·.events fd) ∧ Handled mode fs xs ok

theorem Logged.nil {mode : Char} : Logged fd mode [] L true [] L := ⟨by simp, .nil⟩

theorem Logged.append {mode : Char} {fs gs : List Field} {xs ys : List Exchange} {ok : Bool}
    {L' L'' : List Event} (h : Logged fd mode fs L true xs L')
    (h' : Logged fd mode gs L' ok ys L'') : Logged fd mode (fs ++ gs) L ok (xs ++ ys) L'' := by
  refine ⟨?_, h.2.append h'.2⟩
  rw [h'.1, h.1, List.flatMap_append, List.append_assoc]

theorem Logged.stop {mode : Char} {fs : List Field} {xs : List Exchange} {L' : List Event}
    (h : Logged fd mode fs L false xs L') (gs : List Field) :
    Logged fd mode (fs ++ gs) L false xs L' :=
  ⟨h.1, h.2.append_of_stop gs⟩

/-- The fields that a threshold argument asks for. -/
def threshold_field (T : Target) (reg : UInt8) (t : Option Double) : List Field :=
  (t.map fun t => (⟨reg, encode_temp T t⟩ : Field)).toList

/-- The fields that a config argument asks for. -/
def config_field (reg : UInt8) (cfg : Option UInt8) : List Field :=
  (cfg.map fun b => (⟨reg, [b]⟩ : Field)).toList

/-- The write of a field, and the wait after it. -/
theorem wp_write_field (f : Field) (n : ℤ) (hn : n = f.bytes.length + 1) :
    wp busLog (fun _ _ => True) (fun ok L' => ∃ xs, Logged fd 'w' [f] L ok xs L')
      (do
        let status ← write fd (f.reg :: f.bytes)
        if status ≠ n then return false else
        nanosleep
        return true) L := by
  refine ⟨trivial, fun (status : ℤ) L₁ he => ?_⟩
  have hL₁ : L₁ = L ++ [.write fd (f.reg :: f.bytes) status] := he.2.2
  show wp _ _ _ (if status ≠ n then _ else _) _
  rw [wp_ite]
  constructor
  · intro hne
    refine ⟨[.sent f status], by simp [hL₁, Exchange.events], .stop ⟨rfl, rfl⟩ fun hc => hne ?_⟩
    rw [hn]
    exact hc
  · intro heq
    refine ⟨trivial, fun _ L₂ he₂ => ?_⟩
    have hL₂ : L₂ = L₁ := he₂
    refine ⟨[.sent f status], by simp [hL₂, hL₁, Exchange.events], .one ⟨rfl, rfl⟩ ?_⟩
    exact (not_not.mp heq).trans hn

theorem wp_log_write_threshold (reg : UInt8) (t : Option Double) :
    wp busLog (fun _ _ => True)
      (fun ok L' => ∃ xs, Logged fd 'w' (threshold_field T reg t) L ok xs L')
      (write_threshold T fd reg t) L := by
  cases t with
  | none => exact ⟨[], .nil⟩
  | some t => exact wp_write_field ⟨reg, encode_temp T t⟩ 3 rfl

theorem wp_log_write_config (reg : UInt8) (cfg : Option UInt8) :
    wp busLog (fun _ _ => True)
      (fun ok L' => ∃ xs, Logged fd 'w' (config_field reg cfg) L ok xs L')
      (write_config fd reg cfg) L := by
  cases cfg with
  | none => exact ⟨[], .nil⟩
  | some b => exact wp_write_field ⟨reg, [b]⟩ 2 rfl

/-- The read of a field, whose destination holds `old` and gets `new` of the bytes: no sum of the two
statuses but that of complete transfers passes the test. -/
theorem wp_read_field {α : Type} {mode : Char} (hmode : mode ≠ 'w') (f : Field) (n : ℤ)
    (hn : n = f.bytes.length + 1) (old : α) (new : List UInt8 → α) :
    wp busLog (fun _ _ => True)
      (fun r L' => ∃ xs, Logged fd mode [f] L r.1 xs L' ∧
        r.2 = some ((received f.reg xs).elim old new))
      (do
        let status ← write fd [f.reg]
        let rd ← read fd f.bytes.length
        if status + rd.status ≠ n then return (false, some old) else
        return (true, some (new rd.data))) L := by
  refine ⟨trivial, fun (status : ℤ) L₁ he => ⟨trivial, fun (rd : ReadReply) L₂ he₂ => ?_⟩⟩
  have hL₁ : L₁ = L ++ [.write fd [f.reg] status] := he.2.2
  have hL₂ : L₂ = L₁ ++ [.read fd f.bytes.length rd] := he₂.2.2
  have hle : status ≤ 1 := he.2.1
  have hle₂ : rd.status ≤ f.bytes.length := he₂.2.1
  have hlog : L₂ = L ++ [Exchange.got f status rd].flatMap (·.events fd) := by
    simp [hL₂, hL₁, Exchange.events]
  have hrec : received f.reg [Exchange.got f status rd] =
      if status = 1 ∧ rd.status = f.bytes.length then some rd.data else none := by
    simp [received, Exchange.received]
  show wp _ _ _ (if status + rd.status ≠ n then _ else _) _
  rw [wp_ite]
  constructor
  · intro hne
    have hinc : ¬ (status = 1 ∧ rd.status = f.bytes.length) := by
      rintro ⟨h1, h2⟩
      apply hne
      rw [h1, h2, hn, Int.add_comm]
    refine ⟨_, ⟨hlog, .stop ⟨rfl, hmode⟩ hinc⟩, ?_⟩
    rw [hrec, if_neg hinc]
    rfl
  · intro heq
    have hcomplete : status = 1 ∧ rd.status = f.bytes.length := by
      have hsum : status + rd.status = n := not_not.mp heq
      omega
    refine ⟨_, ⟨hlog, .one ⟨rfl, hmode⟩ hcomplete⟩, ?_⟩
    rw [hrec, if_pos hcomplete]
    rfl

theorem wp_log_read_threshold {mode : Char} (hmode : mode ≠ 'w') (reg : UInt8)
    (t : Option Double) :
    wp busLog (fun _ _ => True)
      (fun r L' => ∃ xs, Logged fd mode (threshold_field T reg t) L r.1 xs L' ∧
        r.2 = (received reg xs).elim t (fun data => some (decode_temp T data)))
      (read_threshold T fd reg t) L := by
  cases t with
  | none => exact ⟨[], .nil, rfl⟩
  | some t =>
    refine wp_conseq (wp_read_field hmode ⟨reg, encode_temp T t⟩ 3 rfl t (decode_temp T)) ?_
    rintro ⟨ok, v⟩ L' ⟨xs, hlog, hv⟩
    refine ⟨xs, hlog, hv.trans ?_⟩
    cases received reg xs <;> rfl

theorem wp_log_read_config {mode : Char} (hmode : mode ≠ 'w') (reg : UInt8)
    (cfg : Option UInt8) :
    wp busLog (fun _ _ => True)
      (fun r L' => ∃ xs, Logged fd mode (config_field reg cfg) L r.1 xs L' ∧
        r.2 = (received reg xs).elim cfg (fun data => some (byte data 0)))
      (read_config fd reg cfg) L := by
  cases cfg with
  | none => exact ⟨[], .nil, rfl⟩
  | some b =>
    refine wp_conseq (wp_read_field hmode ⟨reg, [b]⟩ 2 rfl b fun data => byte data 0) ?_
    rintro ⟨ok, v⟩ L' ⟨xs, hlog, hv⟩
    refine ⟨xs, hlog, hv.trans ?_⟩
    cases received reg xs <;> rfl

end Steps

/-! ### One call -/

/-- The two thermometers. -/
inductive Chip where
  | ds75
  | ds1621

namespace Chip

def base : Chip → ℤ
  | ds75 => I2C_DS75_ADDR_BASE
  | ds1621 => I2C_DS1621_ADDR_BASE

/-- The register of T_OS, resp. TH. -/
def reg_high : Chip → UInt8
  | ds75 => 3
  | ds1621 => 0xa1

/-- The register of T_HYST, resp. TL. -/
def reg_low : Chip → UInt8
  | ds75 => 2
  | ds1621 => 0xa2

def reg_cfg : Chip → UInt8
  | ds75 => 1
  | ds1621 => 0xac

/-- The access to the details. -/
def access (T : Target) : Chip → ℤ → ℤ → Option Double → Option Double → Option UInt8 → Char →
    Prog BusSig Details
  | ds75 => access_ds75_details T
  | ds1621 => access_ds1621_details T

variable (c : Chip)

theorem regs_ne : c.reg_high ≠ c.reg_low ∧ c.reg_high ≠ c.reg_cfg ∧ c.reg_low ≠ c.reg_cfg := by
  cases c <;> decide

/-- The fields that a call asks for: those of its arguments that are not null, in this order. -/
def requested (T : Target) (high low : Option Double) (cfg : Option UInt8) : List Field :=
  threshold_field T c.reg_high high ++
    (threshold_field T c.reg_low low ++ config_field c.reg_cfg cfg)

end Chip

theorem threshold_field_reg {T : Target} {reg : UInt8} {t : Option Double} {f : Field}
    (h : f ∈ threshold_field T reg t) : f.reg = reg := by
  cases t with
  | none => simp [threshold_field] at h
  | some t => simp [threshold_field] at h; simp [h]

theorem config_field_reg {reg : UInt8} {cfg : Option UInt8} {f : Field}
    (h : f ∈ config_field reg cfg) : f.reg = reg := by
  cases cfg with
  | none => simp [config_field] at h
  | some b => simp [config_field] at h; simp [h]

/-- Nothing is received in mode 'w'. -/
theorem received_write {fs : List Field} {xs : List Exchange} {ok : Bool} (h : Handled 'w' fs xs ok)
    (reg : UInt8) : received reg xs = none := by
  unfold received
  rw [List.findSome?_eq_none_iff]
  intro x hx
  obtain ⟨f, -, hfor⟩ := h.exists_for x hx
  cases x with
  | sent f status => rfl
  | got f status rd => exact absurd rfl hfor.2

/-- **The outcome of a call**: `status` is that of the `ioctl`, and the exchanges `xs` handle the
requested fields if it is not negative.  A destination holds what was received for it, if anything. -/
structure Outcome (T : Target) (c : Chip) (fd addr : ℤ) (high low : Option Double)
    (cfg : Option UInt8) (mode : Char) (status : ℤ) (xs : List Exchange) (r : Details)
    (L : List Event) : Prop where
  log : L = .ioctl fd (c.base + addr) status :: xs.flatMap (·.events fd)
  failed : status < 0 → xs = [] ∧ r.status = status
  handled : 0 ≤ status → ∃ ok, Handled mode (c.requested T high low cfg) xs ok ∧
    r.status = if ok then 0 else -1
  T_OS : r.T_OS = (received c.reg_high xs).elim high fun data => some (decode_temp T data)
  T_HYST : r.T_HYST = (received c.reg_low xs).elim low fun data => some (decode_temp T data)
  config : r.cfg = (received c.reg_cfg xs).elim cfg fun data => some (byte data 0)

section Call

variable {T : Target} {c : Chip} {fd addr : ℤ} {high low : Option Double} {cfg : Option UInt8}

theorem wp_log_section {α : Type} {body : Prog BusSig α} {Q : α → List Event → Prop}
    {L : List Event} (h : wp busLog (fun _ _ => True) Q body L) :
    wp busLog (fun _ _ => True) Q (protected_section body) L := by
  refine ⟨trivial, fun _ L₁ (h₁ : L₁ = L) => ?_⟩
  subst h₁
  show wp _ _ _ (body.bind fun r => mutex_unlock.bind fun _ => ret r) _
  rw [wp_bind]
  exact wp_conseq h fun r L₂ hQ => ⟨trivial, fun _ L₃ (h₃ : L₃ = L₂) => h₃ ▸ hQ⟩

/-- The end of a write, from its exchanges. -/
theorem Outcome.of_write {status : ℤ} (hs : 0 ≤ status) {xs : List Exchange} {ok : Bool}
    {L : List Event}
    (h : Logged fd 'w' (c.requested T high low cfg) [.ioctl fd (c.base + addr) status] ok xs L) :
    Outcome T c fd addr high low cfg 'w' status xs ⟨if ok then 0 else -1, high, low, cfg⟩ L where
  log := h.1
  failed hneg := absurd hs (not_le.mpr hneg)
  handled _ := ⟨ok, h.2, rfl⟩
  T_OS := by rw [received_write h.2]; rfl
  T_HYST := by rw [received_write h.2]; rfl
  config := by rw [received_write h.2]; rfl

/-- The end of a failed `ioctl`. -/
theorem Outcome.of_failed {mode : Char} {status : ℤ} (hs : status < 0) :
    Outcome T c fd addr high low cfg mode status [] ⟨status, high, low, cfg⟩
      [.ioctl fd (c.base + addr) status] where
  log := rfl
  failed _ := ⟨rfl, rfl⟩
  handled h := absurd hs (not_lt.mpr h)
  T_OS := rfl
  T_HYST := rfl
  config := rfl

theorem wp_log_write :
    wp busLog (fun _ _ => True)
      (fun r L => ∃ status xs, Outcome T c fd addr high low cfg 'w' status xs r L)
      (c.access T fd addr high low cfg 'w') [] := by
  have hshape : c.access T fd addr high low cfg 'w' =
      access_details T c.base c.reg_high c.reg_low c.reg_cfg fd addr high low cfg 'w' := by
    cases c <;> rfl
  rw [hshape]
  refine wp_log_section ⟨trivial, fun (status : ℤ) L₀ (h₀ : L₀ = _) => ?_⟩
  subst h₀
  show wp _ _ _ (if status < 0 then _ else _) _
  rw [wp_ite]
  refine ⟨fun hneg => ⟨status, [], .of_failed hneg⟩, fun hnn => ?_⟩
  have hs : 0 ≤ status := not_lt.mp hnn
  show wp _ _ _ ((write_threshold T fd c.reg_high high).bind _) _
  rw [wp_bind]
  refine wp_conseq (wp_log_write_threshold c.reg_high high) ?_
  rintro (_ | _) L₁ ⟨xs₁, h₁⟩
  · exact ⟨status, _, .of_write hs (h₁.stop _)⟩
  show wp _ _ _ ((write_threshold T fd c.reg_low low).bind _) _
  rw [wp_bind]
  refine wp_conseq (wp_log_write_threshold c.reg_low low) ?_
  rintro (_ | _) L₂ ⟨xs₂, h₂⟩
  · exact ⟨status, _, .of_write hs (h₁.append (h₂.stop _))⟩
  show wp _ _ _ ((write_config fd c.reg_cfg cfg).bind _) _
  rw [wp_bind]
  refine wp_conseq (wp_log_write_config c.reg_cfg cfg) ?_
  rintro (_ | _) L₃ ⟨xs₃, h₃⟩
  · exact ⟨status, _, .of_write hs (h₁.append (h₂.append h₃))⟩
  · exact ⟨status, _, .of_write hs (h₁.append (h₂.append h₃))⟩

theorem received_threshold {mode : Char} {reg reg' : UInt8} (hne : reg' ≠ reg) {t : Option Double}
    {xs : List Exchange} {ok : Bool} (h : Handled mode (threshold_field T reg' t) xs ok) :
    received reg xs = none :=
  received_none h fun _ hf => threshold_field_reg hf ▸ hne

theorem received_config {mode : Char} {reg reg' : UInt8} (hne : reg' ≠ reg) {b : Option UInt8}
    {xs : List Exchange} {ok : Bool} (h : Handled mode (config_field reg' b) xs ok) :
    received reg xs = none :=
  received_none h fun _ hf => config_field_reg hf ▸ hne

theorem wp_log_read {mode : Char} (hmode : mode ≠ 'w') :
    wp busLog (fun _ _ => True)
      (fun r L => ∃ status xs, Outcome T c fd addr high low cfg mode status xs r L)
      (c.access T fd addr high low cfg mode) [] := by
  obtain ⟨hhl, hhc, hlc⟩ := c.regs_ne
  have hshape : c.access T fd addr high low cfg mode =
      access_details T c.base c.reg_high c.reg_low c.reg_cfg fd addr high low cfg mode := by
    cases c <;> rfl
  rw [hshape]
  refine wp_log_section ⟨trivial, fun (status : ℤ) L₀ (h₀ : L₀ = _) => ?_⟩
  subst h₀
  show wp _ _ _ (if status < 0 then _ else _) _
  rw [wp_ite]
  refine ⟨fun hneg => ⟨status, [], .of_failed hneg⟩, fun hnn => ?_⟩
  have hs : 0 ≤ status := not_lt.mp hnn
  rw [if_neg hmode]
  show wp _ _ _ ((read_threshold T fd c.reg_high high).bind _) _
  rw [wp_bind]
  refine wp_conseq (wp_log_read_threshold hmode c.reg_high high) ?_
  rintro ⟨ok₁, v₁⟩ L₁ ⟨xs₁, h₁, hv₁⟩
  -- the registers of the other fields bring nothing for the destination of a field
  have hl₁ : received c.reg_low xs₁ = none := received_threshold hhl h₁.2
  have hc₁ : received c.reg_cfg xs₁ = none := received_threshold hhc h₁.2
  cases ok₁ with
  | false =>
    have h := h₁.stop (threshold_field T c.reg_low low ++ config_field c.reg_cfg cfg)
    refine ⟨status, xs₁, h.1, fun h => absurd h hnn, fun _ => ⟨_, h.2, rfl⟩, ?_, ?_, ?_⟩
    · exact hv₁
    · rw [hl₁]; rfl
    · rw [hc₁]; rfl
  | true =>
  show wp _ _ _ ((read_threshold T fd c.reg_low low).bind _) _
  rw [wp_bind]
  refine wp_conseq (wp_log_read_threshold hmode c.reg_low low) ?_
  rintro ⟨ok₂, v₂⟩ L₂ ⟨xs₂, h₂, hv₂⟩
  have hh₂ : received c.reg_high xs₂ = none := received_threshold hhl.symm h₂.2
  have hc₂ : received c.reg_cfg xs₂ = none := received_threshold hlc h₂.2
  cases ok₂ with
  | false =>
    have h := h₁.append (h₂.stop (config_field c.reg_cfg cfg))
    refine ⟨status, xs₁ ++ xs₂, h.1, fun h => absurd h hnn, fun _ => ⟨_, h.2, rfl⟩, ?_, ?_, ?_⟩
    · rw [received_append, hh₂, Option.or_none]; exact hv₁
    · rw [received_append, hl₁, Option.none_or]; exact hv₂
    · rw [received_append, hc₁, hc₂]; rfl
  | true =>
  show wp _ _ _ ((read_config fd c.reg_cfg cfg).bind _) _
  rw [wp_bind]
  refine wp_conseq (wp_log_read_config hmode c.reg_cfg cfg) ?_
  rintro ⟨ok₃, v₃⟩ L₃ ⟨xs₃, h₃, hv₃⟩
  have hh₃ : received c.reg_high xs₃ = none := received_config hhc.symm h₃.2
  have hl₃ : received c.reg_low xs₃ = none := received_config hlc.symm h₃.2
  have h := h₁.append (h₂.append h₃)
  have hend : Outcome T c fd addr high low cfg mode status (xs₁ ++ (xs₂ ++ xs₃))
      ⟨if ok₃ then 0 else -1, v₁, v₂, v₃⟩ L₃ := by
    refine ⟨h.1, fun h => absurd h hnn, fun _ => ⟨_, h.2, rfl⟩, ?_, ?_, ?_⟩
    · rw [received_append, received_append, hh₂, hh₃, Option.or_none, Option.or_none]
      exact hv₁
    · rw [received_append, received_append, hl₁, hl₃, Option.or_none, Option.none_or]
      exact hv₂
    · rw [received_append, received_append, hc₁, hc₂, Option.none_or, Option.none_or]
      exact hv₃
  cases ok₃ with
  | false => exact ⟨status, _, hend⟩
  | true => exact ⟨status, _, hend⟩

/-- **A call**, under every outcome of every transfer. -/
theorem wp_log_access {mode : Char} :
    wp busLog (fun _ _ => True)
      (fun r L => ∃ status xs, Outcome T c fd addr high low cfg mode status xs r L)
      (c.access T fd addr high low cfg mode) [] := by
  by_cases hmode : mode = 'w'
  · exact hmode ▸ wp_log_write
  · exact wp_log_read hmode

/-! ### The requested registers, and no others -/

/-- Data has been sent to the register. -/
def SentData (L : List Event) (reg : UInt8) : Prop :=
  ∃ fd b bytes status, Event.write fd (reg :: b :: bytes) status ∈ L

/-- **A call does exactly what it is asked for.**  The log `L` and the result `r` of a call, whose `ioctl`
returned `status` and whose exchanges are `xs`. -/
structure Exact (T : Target) (c : Chip) (fd addr : ℤ) (high low : Option Double)
    (cfg : Option UInt8) (mode : Char) (r : Details) (L : List Event) (status : ℤ)
    (xs : List Exchange) : Prop where
  /-- The device sees the `ioctl` and the exchanges. -/
  log : L = .ioctl fd (c.base + addr) status :: xs.flatMap (·.events fd)
  /-- The result is 0 when the `ioctl` and every transfer of every requested field went well. -/
  zero_iff : r.status = 0 ↔ 0 ≤ status ∧
    ∀ f ∈ c.requested T high low cfg, ∃ x ∈ xs, x.For mode f ∧ x.Complete
  /-- The exchanges are for the first of the requested fields, in order. -/
  in_order : ∃ fs, fs <+: c.requested T high low cfg ∧ List.Forall₂ (Exchange.For mode) fs xs
  /-- The first incomplete exchange is the last one, and makes the result negative. -/
  stops : (∀ x ∈ xs, x.Complete) ∧ r.status = 0 ∨ status < 0 ∧ xs = [] ∧ r.status < 0 ∨
    ∃ ys x, xs = ys ++ [x] ∧ (∀ y ∈ ys, y.Complete) ∧ ¬ x.Complete ∧ r.status < 0
  /-- A destination holds what complete transfers brought for it, or else what it held before. -/
  T_OS : r.T_OS = (received c.reg_high xs).elim high fun data => some (decode_temp T data)
  T_HYST : r.T_HYST = (received c.reg_low xs).elim low fun data => some (decode_temp T data)
  config : r.cfg = (received c.reg_cfg xs).elim cfg fun data => some (byte data 0)
  /-- Data is sent in mode 'w' only, and only to registers whose turn has come. -/
  sent : ∀ reg, SentData L reg → mode = 'w' ∧ ∃ x ∈ xs, x.field.reg = reg
  /-- A null argument keeps its register. -/
  null : (high = none → ¬ SentData L c.reg_high) ∧ (low = none → ¬ SentData L c.reg_low) ∧
    (cfg = none → ¬ SentData L c.reg_cfg)

/-- The registers of the requested fields are different. -/
theorem requested_nodup : (c.requested T high low cfg).Nodup := by
  obtain ⟨hhl, hhc, hlc⟩ := c.regs_ne
  unfold Chip.requested threshold_field config_field
  cases high <;> cases low <;> cases cfg <;> simp [hhl, hhc, hlc]

/-- A requested field has the register of an argument that is not null. -/
theorem requested_reg {f : Field} (h : f ∈ c.requested T high low cfg) :
    (f.reg = c.reg_high ∧ high.isSome) ∨ (f.reg = c.reg_low ∧ low.isSome) ∨
      (f.reg = c.reg_cfg ∧ cfg.isSome) := by
  unfold Chip.requested threshold_field config_field at h
  cases high <;> cases low <;> cases cfg <;> simp at h ⊢ <;> rcases h with rfl | rfl | rfl <;> simp

/-- An exchange that sends data is a write of its field. -/
theorem Exchange.sent_of_events {x : Exchange} {mode : Char} {f : Field} (hfor : x.For mode f)
    {fd fd' status : ℤ} {reg b : UInt8} {bytes : List UInt8}
    (h : Event.write fd' (reg :: b :: bytes) status ∈ x.events fd) :
    mode = 'w' ∧ x.field.reg = reg ∧ x.field.bytes = b :: bytes := by
  cases x with
  | sent f status =>
    simp only [events, List.mem_singleton, Event.write.injEq, List.cons.injEq] at h
    exact ⟨hfor.2, h.2.1.1.symm, h.2.1.2.symm⟩
  | got f status rd => simp [events] at h

/-- Data that has been sent belongs to an exchange. -/
theorem Outcome.sentData {mode : Char} {status : ℤ} {xs : List Exchange} {r : Details}
    {L : List Event} (h : Outcome T c fd addr high low cfg mode status xs r L) {fd' n : ℤ}
    {reg b : UInt8} {bytes : List UInt8} (hsent : Event.write fd' (reg :: b :: bytes) n ∈ L) :
    mode = 'w' ∧ ∃ x ∈ xs, x.field ∈ c.requested T high low cfg ∧ x.field.reg = reg ∧
      x.field.bytes = b :: bytes := by
  rw [h.log, List.mem_cons] at hsent
  rcases hsent with hsent | hsent
  · exact nomatch hsent
  obtain ⟨x, hx, hevent⟩ := List.mem_flatMap.mp hsent
  have hs : 0 ≤ status := by
    by_contra hneg
    rw [(h.failed (not_le.mp hneg)).1] at hx
    exact nomatch hx
  obtain ⟨ok, hhandled, -⟩ := h.handled hs
  obtain ⟨f, hf, hfor⟩ := hhandled.exists_for x hx
  obtain ⟨hmode, hreg, hbytes⟩ := Exchange.sent_of_events hfor hevent
  exact ⟨hmode, x, hx, hfor.1 ▸ hf, hreg, hbytes⟩

/-- A register that gets data belongs to an argument. -/
theorem Outcome.sent_arg {mode : Char} {status : ℤ} {xs : List Exchange} {r : Details}
    {L : List Event} (h : Outcome T c fd addr high low cfg mode status xs r L) {reg : UInt8}
    (hsent : SentData L reg) :
    (reg = c.reg_high ∧ high.isSome) ∨ (reg = c.reg_low ∧ low.isSome) ∨
      (reg = c.reg_cfg ∧ cfg.isSome) := by
  obtain ⟨fd', b, bytes, n, hsent⟩ := hsent
  obtain ⟨-, x, -, hfield, rfl, -⟩ := h.sentData hsent
  exact requested_reg hfield

theorem Outcome.exact {mode : Char} {status : ℤ} {xs : List Exchange} {r : Details}
    {L : List Event} (h : Outcome T c fd addr high low cfg mode status xs r L) :
    Exact T c fd addr high low cfg mode r L status xs := by
  obtain ⟨hhl, hhc, hlc⟩ := c.regs_ne
  have hsent : ∀ reg, SentData L reg → mode = 'w' ∧ ∃ x ∈ xs, x.field.reg = reg := by
    rintro reg ⟨fd', b, bytes, n, hs⟩
    obtain ⟨hmode, x, hx, -, hreg, -⟩ := h.sentData hs
    exact ⟨hmode, x, hx, hreg⟩
  have hnull : (high = none → ¬ SentData L c.reg_high) ∧ (low = none → ¬ SentData L c.reg_low) ∧
      (cfg = none → ¬ SentData L c.reg_cfg) := by
    refine ⟨?_, ?_, ?_⟩ <;> rintro rfl hs <;> have harg := h.sent_arg hs <;>
      simp [hhl, hhc, hlc, hhl.symm, hhc.symm, hlc.symm] at harg
  rcases lt_or_ge status 0 with hneg | hnn
  · obtain ⟨rfl, hr⟩ := h.failed hneg
    refine ⟨h.log, ?_, ⟨[], List.nil_prefix, .nil⟩, .inr (.inl ⟨hneg, rfl, hr ▸ hneg⟩), h.T_OS,
      h.T_HYST, h.config, hsent, hnull⟩
    rw [hr]
    exact ⟨fun h0 => absurd h0 (ne_of_lt hneg), fun h0 => absurd h0.1 (not_le.mpr hneg)⟩
  · obtain ⟨ok, hhandled, hr⟩ := h.handled hnn
    obtain ⟨⟨fs, hpre, hfor, -⟩, hok, hstop⟩ := hhandled.shape
    have hiff := hhandled.ok_iff (fun _ _ _ => Exchange.for_unique) requested_nodup
    refine ⟨h.log, ?_, ⟨fs, hpre, hfor⟩, ?_, h.T_OS, h.T_HYST, h.config, hsent, hnull⟩
    · rw [hr, ← hiff]
      cases ok <;> simp [hnn]
    · cases ok with
      | true => exact .inl ⟨hok rfl, hr⟩
      | false =>
        obtain ⟨ys, x, hxs, hys, hx⟩ := hstop rfl
        refine .inr (.inr ⟨ys, x, hxs, hys, hx, ?_⟩)
        rw [hr]
        decide

/-- **Exactly the requested registers, in order, and no masked failure.** -/
theorem details_exact {mode : Char} {r : Details} {L : List Event}
    (h : Returns busLog (c.access T fd addr high low cfg mode) [] r L) :
    ∃ status xs, Exact T c fd addr high low cfg mode r L status xs := by
  obtain ⟨status, xs, houtcome⟩ := wp_returns wp_log_access h
  exact ⟨status, xs, houtcome.exact⟩

/-! ### Complete transfers -/

/-- The answers when every transfer is complete; a read brings the bytes `data`. -/
def okLog (data : List UInt8) (w : List Event) :
    (o : BusOp) → Option (BusOp.Reply o × List Event)
  | .ioctl fd slave => some ((0 : ℤ), w ++ [.ioctl fd slave 0])
  | .write fd buf => some ((buf.length : ℤ), w ++ [.write fd buf buf.length])
  | .read fd n => some (⟨n, data⟩, w ++ [.read fd n ⟨n, data⟩])
  | .mutex_lock | .mutex_unlock | .nanosleep => some ((), w)
  | .gpio_write _ _ => some ((0 : ℤ), w)
  | _ => none

theorem neg_one_le (n : ℕ) : (-1 : ℤ) ≤ n := by omega

theorem busLog_of_okLog (data : List UInt8) (w : List Event) (o : BusOp) (r : BusOp.Reply o)
    (w' : List Event) (h : okLog data w o = some (r, w')) : busLog w o r w' := by
  cases o <;> simp only [okLog, Option.some.injEq, Prod.mk.injEq, reduceCtorEq] at h
  case write fd buf =>
    obtain ⟨rfl, rfl⟩ := h
    exact ⟨neg_one_le _, le_refl _, rfl⟩
  case read fd n =>
    obtain ⟨rfl, rfl⟩ := h
    exact ⟨neg_one_le _, le_refl _, rfl⟩
  case ioctl fd slave =>
    obtain ⟨rfl, rfl⟩ := h
    exact rfl
  all_goals exact h.2.symm

/-- A read of T_OS alone from a DS75, with everything complete. -/
theorem details_exact_read :
    ∃ r L status xs, Returns busLog
        (Chip.ds75.access ⟨false, fun _ => 0, id⟩ 3 0 (some 0) none none 'r') [] r L ∧
      r.T_OS = some (.fin 25) ∧
      Exact ⟨false, fun _ => 0, id⟩ .ds75 3 0 (some 0) none none 'r' r L status xs := by
  have hrun : Returns busLog (Chip.ds75.access ⟨false, fun _ => 0, id⟩ 3 0 (some 0) none none 'r')
      [] ⟨0, some (.fin 25), none, none⟩
      [.ioctl 3 0x48 0, .write 3 [3] 1, .read 3 2 ⟨2, [25, 0]⟩] :=
    returns_of_exec (busLog_of_okLog [25, 0]) (by decide +kernel)
  obtain ⟨status, xs, hexact⟩ := details_exact (c := .ds75) hrun
  exact ⟨_, _, status, xs, hrun, rfl, hexact⟩

end Call

end RackmonIoc.Bus
