import RackmonIoc.Bus.Box

/-!
# What the calls do to a probe

The device that a call of `read_temp_ds75` or `access_ds75_details` leaves behind, as a function of the
device it found.  `boxEnvOn D` is the box in which no transfer to a device of `D` fails; there the
function applies to every call that gets past its `ioctl`, and elsewhere to every call that succeeds.
-/

namespace RackmonIoc.Bus

open Program CLib Driver Prog

/-! ### Complete transfers -/

/-- The transfer moved all its bytes. -/
def Complete (o : BusOp) (r : BusOp.Reply o) : Prop :=
  match o, r with
  | .write _ buf, r => r = (buf.length : ℤ)
  | .read _ n, r => r.status = n
  | _, _ => True

/-- The box in which no transfer to a device of `D` fails. -/
def boxEnvOn (D : ℕ × ℤ → Prop) : Env BusSig Box :=
  fun w o r w' => boxEnv w o r w' ∧ (D w.target → Complete o r)

/-- The same, as the device support sees it. -/
def boxDevOn (D : ℕ × ℤ → Prop) (T : Target) : Env DevSig Box := Env.through (boxEnvOn D) (expand T)

theorem boxDev_of_on {D : ℕ × ℤ → Prop} {T : Target} {w w' : Box} {o : DevOp} {r : o.Reply}
    (h : boxDevOn D T w o r w') : boxDev T w o r w' := by
  have hs : Steps (boxEnvOn D) (expand T o) w (ret r) w' := h
  exact hs.mono fun _ _ _ _ => And.left

/-- With no restriction on the transfers it is the box. -/
theorem boxEnvOn_none : boxEnvOn (fun _ => False) = boxEnv := by
  funext w o r w'
  simp [boxEnvOn]

theorem boxDevOn_none (T : Target) : boxDevOn (fun _ => False) T = boxDev T := by
  unfold boxDevOn
  rw [boxEnvOn_none]
  rfl

/-! ### One transfer -/

namespace DS75

def point (d : DS75) (reg : UInt8) : DS75 := { d with pointer := reg }

/-- The device after the bytes, if any, have been written to the register. -/
def store (d : DS75) (reg : UInt8) : Option (List UInt8) → DS75
  | none => d
  | some bytes => d.write (reg :: bytes)

/-- The device after the register has been read, if at all. -/
def visit {α : Type} (d : DS75) (reg : UInt8) : Option α → DS75
  | none => d
  | some _ => d.point reg

/-- The temperature in a register, as the driver decodes it. -/
def temp (T : Target) (d : DS75) (reg : UInt8) : Double :=
  decode_temp T [(d.reg reg).1, (d.reg reg).2]

@[simp] theorem write_one (d : DS75) (reg : UInt8) : d.write [reg] = d.point reg := rfl

theorem point_output {reg : UInt8} (h : reg ≠ 1) (d : DS75) :
    (d.point reg).output 2 = [(d.reg reg).1, (d.reg reg).2] := by
  unfold output
  rw [if_neg (by exact h)]
  rfl

theorem visit_sameData {α : Type} (d : DS75) (reg : UInt8) (o : Option α) :
    d.SameData (d.visit reg o) := by
  cases o with
  | none => exact ⟨rfl, rfl⟩
  | some x => exact ⟨rfl, rfl⟩

theorem SameData.trans {d₁ d₂ d₃ : DS75} (h : d₁.SameData d₂) (h' : d₂.SameData d₃) :
    d₁.SameData d₃ :=
  ⟨h'.1.trans h.1, h'.2.trans h.2⟩

theorem temp_of_sameData {T : Target} {d d' : DS75} (h : d.SameData d') (reg : UInt8) :
    d'.temp T reg = d.temp T reg := by
  unfold temp
  rw [h.2]

end DS75

theorem Box.setAddressed_self (w : Box) : w.setAddressed w.addressed = w := by
  unfold Box.setAddressed
  congr 1
  funext i a
  by_cases h : (i, a) = w.target
  · obtain ⟨rfl, rfl⟩ := Prod.mk.inj h
    exact if_pos h
  · exact if_neg h

section Transfers

variable {D : ℕ × ℤ → Prop} {T : Target} {w : Box} {d : DS75} {fd : ℤ}

theorem boxEnvOn_write {w' : Box} {buf : List UInt8} {r : ℤ}
    (h : boxEnvOn D (w.setAddressed d) (.write fd buf) r w') :
    ∃ d', w' = w.setAddressed d' ∧ r ≤ buf.length ∧ (D w.target → r = buf.length) ∧
      (r = buf.length → d' = d.write buf) := by
  obtain ⟨he, hD⟩ := h
  unfold boxEnv at he
  simp only [Box.addressed_setAddressed, Box.setAddressed_twice] at he
  by_cases hr : r = buf.length
  · rw [if_pos hr] at he
    exact ⟨_, he, le_of_eq hr, hD, fun _ => rfl⟩
  · rw [if_neg hr] at he
    obtain ⟨-, hlt, d', rfl⟩ := he
    exact ⟨d', rfl, le_of_lt hlt, hD, fun h => absurd h hr⟩

theorem boxEnvOn_read {w' : Box} {n : ℕ} {r : ReadReply}
    (h : boxEnvOn D (w.setAddressed d) (.read fd n) r w') :
    ∃ d', w' = w.setAddressed d' ∧ r.status ≤ n ∧ (D w.target → r.status = n) ∧
      (r.status = n → d' = d ∧ r.data = d.output n) := by
  obtain ⟨he, hD⟩ := h
  unfold boxEnv at he
  simp only [Box.addressed_setAddressed, Box.setAddressed_twice] at he
  by_cases hr : r.status = n
  · rw [if_pos hr] at he
    exact ⟨d, he.2, le_of_eq hr, hD, fun _ => ⟨rfl, he.1⟩⟩
  · rw [if_neg hr] at he
    obtain ⟨-, hlt, d', rfl⟩ := he
    exact ⟨d', rfl, le_of_lt hlt, hD, fun h => absurd h hr⟩

/-- Two transfers that move no more than their bytes are complete if together they move them all. -/
theorem both_complete {a b m n : ℤ} (hsum : a + b = m + n) (ha : a ≤ m) (hb : b ≤ n) :
    a = m ∧ b = n := by
  omega

/-! ### One register -/

/-- The outcome `ok` in `w'` of an access to the device `d` that `w` addresses: `d` becomes `f d` if all
went well, which it does on the devices of `D`. -/
def Accessed (D : ℕ × ℤ → Prop) (w : Box) (f : DS75 → DS75) (d : DS75) (ok : Bool) (w' : Box) : Prop :=
  ∃ d', w' = w.setAddressed d' ∧ (D w.target → ok = true) ∧ (ok = true → d' = f d)

theorem wp_write_threshold (reg : UInt8) (t : Option Double) :
    wp (boxEnvOn D) (fun _ _ => True)
      (fun ok w' => Accessed D w (fun d => d.store reg (t.map (encode_temp T))) d ok w')
      (write_threshold T fd reg t) (w.setAddressed d) := by
  rcases t with _ | t
  · exact ⟨d, rfl, fun _ => rfl, fun _ => rfl⟩
  · refine ⟨trivial, fun status w₁ he => ?_⟩
    obtain ⟨d', rfl, -, hD, hd'⟩ := boxEnvOn_write he
    have h3 : ((reg :: encode_temp T t).length : ℤ) = 3 := rfl
    rw [h3] at hD hd'
    show wp _ _ _ (if status ≠ 3 then _ else _) _
    rw [wp_ite]
    constructor
    · intro hne
      exact ⟨d', rfl, fun h => absurd (hD h) hne, nofun⟩
    · intro heq
      refine ⟨trivial, fun _ w₂ he₂ => ?_⟩
      have hw₂ : w₂ = w.setAddressed d' := he₂.1
      exact ⟨d', hw₂, fun _ => rfl, fun _ => hd' (not_not.mp heq)⟩

theorem wp_write_config (reg : UInt8) (c : Option UInt8) :
    wp (boxEnvOn D) (fun _ _ => True)
      (fun ok w' => Accessed D w (fun d => d.store reg (c.map fun b => [b])) d ok w')
      (write_config fd reg c) (w.setAddressed d) := by
  rcases c with _ | b
  · exact ⟨d, rfl, fun _ => rfl, fun _ => rfl⟩
  · refine ⟨trivial, fun status w₁ he => ?_⟩
    obtain ⟨d', rfl, -, hD, hd'⟩ := boxEnvOn_write he
    have h2 : (([reg, b] : List UInt8).length : ℤ) = 2 := rfl
    rw [h2] at hD hd'
    show wp _ _ _ (if status ≠ 2 then _ else _) _
    rw [wp_ite]
    constructor
    · intro hne
      exact ⟨d', rfl, fun h => absurd (hD h) hne, nofun⟩
    · intro heq
      refine ⟨trivial, fun _ w₂ he₂ => ?_⟩
      have hw₂ : w₂ = w.setAddressed d' := he₂.1
      exact ⟨d', hw₂, fun _ => rfl, fun _ => hd' (not_not.mp heq)⟩

theorem wp_read_threshold {reg : UInt8} (hreg : reg ≠ 1) (t : Option Double) :
    wp (boxEnvOn D) (fun _ _ => True)
      (fun r w' => Accessed D w (fun d => d.visit reg t) d r.1 w' ∧
        (r.1 = true → r.2 = t.map fun _ => d.temp T reg))
      (read_threshold T fd reg t) (w.setAddressed d) := by
  rcases t with _ | t
  · exact ⟨⟨d, rfl, fun _ => rfl, fun _ => rfl⟩, fun _ => rfl⟩
  · refine ⟨trivial, fun status w₁ he => ⟨trivial, fun rd w₂ he₂ => ?_⟩⟩
    obtain ⟨d₁, rfl, hle₁, hD₁, hd₁⟩ := boxEnvOn_write he
    obtain ⟨d₂, rfl, hle₂, hD₂, hd₂⟩ := boxEnvOn_read he₂
    simp only [List.length_cons, List.length_nil] at hle₁ hD₁ hd₁
    show wp _ _ _ (if status + rd.status ≠ 3 then _ else _) _
    rw [wp_ite]
    constructor
    · intro hne
      refine ⟨⟨d₂, rfl, fun h => absurd ?_ hne, nofun⟩, nofun⟩
      rw [hD₁ h, hD₂ h]
      rfl
    · intro hsum
      obtain ⟨hs, hr⟩ : status = (1 : ℤ) ∧ rd.status = (2 : ℤ) :=
        both_complete (not_not.mp hsum) hle₁ hle₂
      obtain ⟨rfl, hdata⟩ := hd₂ hr
      have hd : d₂ = d.point reg := hd₁ hs
      refine ⟨⟨d₂, rfl, fun _ => rfl, fun _ => hd⟩, fun _ => ?_⟩
      rw [hdata, hd, DS75.point_output hreg]
      rfl

theorem wp_read_config (c : Option UInt8) :
    wp (boxEnvOn D) (fun _ _ => True)
      (fun r w' => Accessed D w (fun d => d.visit 1 c) d r.1 w' ∧
        (r.1 = true → r.2 = c.map fun _ => d.config))
      (read_config fd 1 c) (w.setAddressed d) := by
  rcases c with _ | b
  · exact ⟨⟨d, rfl, fun _ => rfl, fun _ => rfl⟩, fun _ => rfl⟩
  · refine ⟨trivial, fun status w₁ he => ⟨trivial, fun rd w₂ he₂ => ?_⟩⟩
    obtain ⟨d₁, rfl, hle₁, hD₁, hd₁⟩ := boxEnvOn_write he
    obtain ⟨d₂, rfl, hle₂, hD₂, hd₂⟩ := boxEnvOn_read he₂
    simp only [List.length_cons, List.length_nil] at hle₁ hD₁ hd₁
    show wp _ _ _ (if status + rd.status ≠ 2 then _ else _) _
    rw [wp_ite]
    constructor
    · intro hne
      refine ⟨⟨d₂, rfl, fun h => absurd ?_ hne, nofun⟩, nofun⟩
      rw [hD₁ h, hD₂ h]
      rfl
    · intro hsum
      obtain ⟨hs, hr⟩ : status = (1 : ℤ) ∧ rd.status = (1 : ℤ) :=
        both_complete (not_not.mp hsum) hle₁ hle₂
      obtain ⟨rfl, hdata⟩ := hd₂ hr
      have hd : d₂ = d.point 1 := hd₁ hs
      refine ⟨⟨d₂, rfl, fun _ => rfl, fun _ => hd⟩, fun _ => ?_⟩
      rw [hdata, hd]
      rfl

/-! ### One call -/

/-- A call with the status `status` that ends in `w'`: either its `ioctl` fails and nothing happens, or
the device `slave` behind the stub is accessed, and becomes `f` of what it was. -/
def Called (D : ℕ × ℤ → Prop) (w : Box) (slave : ℤ) (f : DS75 → DS75) (status : ℤ) (w' : Box) :
    Prop :=
  (w' = w ∧ status ≠ 0) ∨
    Accessed D { w with slave := slave } f (w.device (mux_stub w.pin) slave) (decide (status = 0)) w'

theorem wp_protected_section {α : Type} {body : Prog BusSig α} {Q : α → Box → Prop}
    (h : wp (boxEnvOn D) (fun _ _ => True) Q body w) :
    wp (boxEnvOn D) (fun _ _ => True) Q (protected_section body) w := by
  refine ⟨trivial, fun _ w₁ he => ?_⟩
  have hw₁ : w₁ = w := he.1
  subst hw₁
  show wp _ _ _ (body.bind fun r => mutex_unlock.bind fun _ => ret r) _
  rw [wp_bind]
  refine wp_conseq h fun r w₂ hQ => ⟨trivial, fun _ w₃ he₃ => ?_⟩
  have hw₃ : w₃ = w₂ := he₃.1
  exact hw₃ ▸ hQ

/-- The `ioctl` of a call, and what comes after it from the device it addresses. -/
theorem wp_ioctl {α : Type} {slave : ℤ} {fail : ℤ → α} {rest : Prog BusSig α}
    {Q : α → Box → Prop} (hfail : ∀ status < 0, Q (fail status) w)
    (hrest : wp (boxEnvOn D) (fun _ _ => True) Q rest
      (({ w with slave := slave } : Box).setAddressed (w.device (mux_stub w.pin) slave))) :
    wp (boxEnvOn D) (fun _ _ => True) Q
      (.vis (.ioctl fd slave) fun status => if status < 0 then ret (fail status) else rest) w := by
  refine ⟨trivial, fun (status : ℤ) w₁ he => ?_⟩
  have hw₁ : w₁ = if 0 ≤ status then { w with slave := slave } else w := he.1
  show wp _ _ _ (if status < 0 then _ else _) _
  rw [wp_ite]
  constructor
  · intro hneg
    rw [if_neg (not_le.mpr hneg)] at hw₁
    exact hw₁ ▸ hfail status hneg
  · intro hnn
    rw [if_pos (not_lt.mp hnn)] at hw₁
    rw [hw₁, ← Box.setAddressed_self { w with slave := slave }]
    exact hrest

/-- A write of the details writes them to their registers, one after the other. -/
theorem wp_access_details_write (addr : ℤ) (a b : Option Double) (c : Option UInt8) :
    wp (boxEnvOn D) (fun _ _ => True)
      (fun r w' => Called D w (0x48 + addr) (fun d =>
        ((d.store 3 (a.map (encode_temp T))).store 2 (b.map (encode_temp T))).store 1
          (c.map fun b => [b])) r.status w')
      (access_ds75_details T fd addr a b c 'w') w := by
  refine wp_protected_section (wp_ioctl (fun status hneg => .inl ⟨rfl, ne_of_lt hneg⟩) ?_)
  show wp _ _ _ ((write_threshold T fd 3 a).bind _) _
  rw [wp_bind]
  refine wp_conseq (wp_write_threshold 3 a) fun ok₁ w₁ h₁ => ?_
  obtain ⟨d₁, rfl, hD₁, hd₁⟩ := h₁
  rcases ok₁ with _ | _
  · exact .inr ⟨d₁, rfl, fun h => absurd (hD₁ h) nofun, nofun⟩
  show wp _ _ _ ((write_threshold T fd 2 b).bind _) _
  rw [wp_bind]
  refine wp_conseq (wp_write_threshold 2 b) fun ok₂ w₂ h₂ => ?_
  obtain ⟨d₂, rfl, hD₂, hd₂⟩ := h₂
  rcases ok₂ with _ | _
  · exact .inr ⟨d₂, rfl, fun h => absurd (hD₂ h) nofun, nofun⟩
  show wp _ _ _ ((write_config fd 1 c).bind _) _
  rw [wp_bind]
  refine wp_conseq (wp_write_config 1 c) fun ok₃ w₃ h₃ => ?_
  obtain ⟨d₃, rfl, hD₃, hd₃⟩ := h₃
  rcases ok₃ with _ | _
  · exact .inr ⟨d₃, rfl, fun h => absurd (hD₃ h) nofun, nofun⟩
  · refine .inr ⟨d₃, rfl, fun _ => rfl, fun _ => ?_⟩
    rw [hd₃ rfl, hd₂ rfl, hd₁ rfl]
    rfl

/-- A read of the details visits their registers, and brings what is in them. -/
theorem wp_access_details_read (addr : ℤ) (a b : Option Double) (c : Option UInt8) :
    wp (boxEnvOn D) (fun _ _ => True)
      (fun r w' => Called D w (0x48 + addr) (fun d => ((d.visit 3 a).visit 2 b).visit 1 c)
          r.status w' ∧
        (r.status = 0 → r = ⟨0, a.map fun _ => (w.device (mux_stub w.pin) (0x48 + addr)).temp T 3,
          b.map fun _ => (w.device (mux_stub w.pin) (0x48 + addr)).temp T 2,
          c.map fun _ => (w.device (mux_stub w.pin) (0x48 + addr)).config⟩))
      (access_ds75_details T fd addr a b c 'r') w := by
  refine wp_protected_section (wp_ioctl (fun status hneg => ?_) ?_)
  · exact ⟨.inl ⟨rfl, ne_of_lt hneg⟩, fun h => absurd h (ne_of_lt hneg)⟩
  show wp _ _ _ ((read_threshold T fd 3 a).bind _) _
  rw [wp_bind]
  refine wp_conseq (wp_read_threshold (by decide) a) ?_
  rintro ⟨ok₁, v₁⟩ w₁ ⟨⟨d₁, rfl, hD₁, hd₁⟩, hv₁⟩
  rcases ok₁ with _ | _
  · exact ⟨.inr ⟨d₁, rfl, fun h => absurd (hD₁ h) nofun, nofun⟩, nofun⟩
  show wp _ _ _ ((read_threshold T fd 2 b).bind _) _
  rw [wp_bind]
  refine wp_conseq (wp_read_threshold (by decide) b) ?_
  rintro ⟨ok₂, v₂⟩ w₂ ⟨⟨d₂, rfl, hD₂, hd₂⟩, hv₂⟩
  rcases ok₂ with _ | _
  · exact ⟨.inr ⟨d₂, rfl, fun h => absurd (hD₂ h) nofun, nofun⟩, nofun⟩
  show wp _ _ _ ((read_config fd 1 c).bind _) _
  rw [wp_bind]
  apply wp_conseq (wp_read_config c)
  rintro ⟨ok₃, v₃⟩ w₃ ⟨⟨d₃, rfl, hD₃, hd₃⟩, hv₃⟩
  rcases ok₃ with _ | _
  · exact ⟨.inr ⟨d₃, rfl, fun h => absurd (hD₃ h) nofun, nofun⟩, nofun⟩
  · have h₁ : d₁ = (w.device (mux_stub w.pin) (0x48 + addr)).visit 3 a := hd₁ rfl
    have h₂ : d₂ = d₁.visit 2 b := hd₂ rfl
    have h₃ : d₃ = d₂.visit 1 c := hd₃ rfl
    have e₁ : v₁ = a.map fun _ => (w.device (mux_stub w.pin) (0x48 + addr)).temp T 3 := hv₁ rfl
    have e₂ : v₂ = b.map fun _ => d₁.temp T 2 := hv₂ rfl
    have e₃ : v₃ = c.map fun _ => d₂.config := hv₃ rfl
    -- the visits before a register leave its content
    have hsame₁ := (w.device (mux_stub w.pin) (0x48 + addr)).visit_sameData 3 a
    have hsame₂ := hsame₁.trans (DS75.visit_sameData _ 2 b)
    refine ⟨.inr ⟨d₃, rfl, fun _ => rfl, fun _ => ?_⟩, fun _ => ?_⟩
    · rw [h₃, h₂, h₁]
    · rw [e₁, e₂, e₃, h₂, h₁, hsame₂.1, DS75.temp_of_sameData hsame₁]

theorem wp_read_temp_ds75 (addr : ℤ) (t : Double) :
    wp (boxEnvOn D) (fun _ _ => True)
      (fun r w' => Called D w (0x48 + addr % 8) (fun d => d.point 0) r.status w' ∧
        (r.status = 0 → r.T_degC = (w.device (mux_stub w.pin) (0x48 + addr % 8)).temp T 0))
      (read_temp_ds75 T fd addr t) w := by
  refine wp_protected_section (wp_ioctl (fun status hneg => ?_) ?_)
  · exact ⟨.inl ⟨rfl, ne_of_lt hneg⟩, fun h => absurd h (ne_of_lt hneg)⟩
  refine ⟨trivial, fun status w₁ he => ?_⟩
  obtain ⟨d₁, rfl, -, hD₁, hd₁⟩ := boxEnvOn_write he
  show wp _ _ _ (if status ≠ 1 then _ else _) _
  rw [wp_ite]
  constructor
  · intro hne
    exact ⟨.inr ⟨d₁, rfl, fun h => absurd (hD₁ h) hne, nofun⟩, nofun⟩
  intro hone
  refine ⟨trivial, fun rd w₂ he₂ => ?_⟩
  obtain ⟨d₂, rfl, -, hD₂, hd₂⟩ := boxEnvOn_read he₂
  show wp _ _ _ (if rd.status ≠ 2 then _ else _) _
  rw [wp_ite]
  constructor
  · intro hne
    exact ⟨.inr ⟨d₂, rfl, fun h => absurd (hD₂ h) hne, nofun⟩, nofun⟩
  · intro htwo
    have hpoint : d₁ = _ := hd₁ (not_not.mp hone)
    obtain ⟨hkept, hdata⟩ := hd₂ (not_not.mp htwo)
    refine ⟨.inr ⟨d₂, rfl, fun _ => rfl, fun _ => hkept.trans hpoint⟩, fun _ => ?_⟩
    show decode_temp T rd.data = _
    rw [hdata, hpoint, DS75.write_one, DS75.point_output (by decide)]
    rfl

/-! ### The calls of the device support -/

theorem boxDevOn_write {addr : ℤ} {a b : Option Double} {c : Option UInt8} {r : Details} {w' : Box}
    (h : boxDevOn D T w (.access_ds75_details fd addr a b c 'w') r w') :
    Called D w (0x48 + addr) (fun d =>
      ((d.store 3 (a.map (encode_temp T))).store 2 (b.map (encode_temp T))).store 1
        (c.map fun b => [b])) r.status w' := by
  have hr : Returns (boxEnvOn D) (access_ds75_details T fd addr a b c 'w') w r w' := h
  have hspec := wp_returns (wp_access_details_write addr a b c) hr
  exact hspec

theorem boxDevOn_read {addr : ℤ} {a b : Option Double} {c : Option UInt8} {r : Details} {w' : Box}
    (h : boxDevOn D T w (.access_ds75_details fd addr a b c 'r') r w') :
    Called D w (0x48 + addr) (fun d => ((d.visit 3 a).visit 2 b).visit 1 c) r.status w' ∧
      (r.status = 0 → r = ⟨0, a.map fun _ => (w.device (mux_stub w.pin) (0x48 + addr)).temp T 3,
        b.map fun _ => (w.device (mux_stub w.pin) (0x48 + addr)).temp T 2,
        c.map fun _ => (w.device (mux_stub w.pin) (0x48 + addr)).config⟩) := by
  have hr : Returns (boxEnvOn D) (access_ds75_details T fd addr a b c 'r') w r w' := h
  have hspec := wp_returns (wp_access_details_read addr a b c) hr
  exact hspec

theorem boxDevOn_read_temp {addr : ℤ} {t : Double} {r : TempReply} {w' : Box}
    (h : boxDevOn D T w (.read_temp_ds75 fd addr t) r w') :
    Called D w (0x48 + addr % 8) (fun d => d.point 0) r.status w' ∧
      (r.status = 0 →
        r.T_degC = (w.device (mux_stub w.pin) (0x48 + addr % 8)).temp T 0) := by
  have hr : Returns (boxEnvOn D) (read_temp_ds75 T fd addr t) w r w' := h
  have hspec := wp_returns (wp_read_temp_ds75 addr t) hr
  exact hspec

theorem wp_select_probe_on {istub : ℤ} :
    wp (boxDevOn D T) (fun _ _ => True) (fun sel w' => w'.slave = w.slave ∧
      w'.device = w.device ∧ (sel = -1 ∨ sel = 0 ∧ mux_holds w'.pin istub)) (select_probe istub) w :=
  wp_env (fun _ _ _ _ h => boxDev_of_on h) (wp_select_probe fun _ _ _ => trivial)

end Transfers

end RackmonIoc.Bus
