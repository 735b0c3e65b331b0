import RackmonIoc.Bus.Box
import RackmonIoc.Program.Rely

/-!
# Crosstalk between scan threads

Any number of threads, each processing initialised records one after the other, in any interleaving.
A pin write is one step, and so is a call of `read_temp_ds75` or `access_ds75_details`; the mutex covers
the latter but not the selection before it.  So a transaction is safe from the selections of another
thread only where both are made for the same stub.
-/

namespace RackmonIoc.Temp

open Program CLib Base Driver Bus Prog

/-! ### The calls of the scan threads -/

/-- A processing of an initialised record. -/
inductive ScanCall where
  | read_ai (prec : AiRecord) (cfg₀ : UInt8)
  | write_ao (prec : AoRecord)

def ScanCall.common : ScanCall → DbCommon
  | read_ai prec _ => prec.toDbCommon
  | write_ao prec => prec.toDbCommon

/-- The call returns the status of the device support. -/
def ScanCall.prog (T : Target) (g : Globals) : ScanCall → Prog DevSig ℤ
  | read_ai prec cfg₀ => (Driver.read_ai g prec cfg₀).bind fun r => ret r.1
  | write_ao prec => (Driver.write_ao T g prec).bind fun r => ret r.1

/-- The record of the call is initialised, with the number `n`. -/
def ScanCall.Number (g : Globals) (c : ScanCall) (n : ℤ) : Prop := ∃ ch, Entry g c.common n ch

/-- The call knows what to do with a record of the letter `ch`. -/
def ScanCall.Knows (c : ScanCall) (ch : Char) : Prop :=
  match c with
  | read_ai _ _ => Reads ch
  | write_ao prec => Writes ch prec.val

/-- The call makes a transaction, if the selection succeeds. -/
def ScanCall.Transacts (g : Globals) (c : ScanCall) : Prop :=
  ∃ n ch, Entry g c.common n ch ∧ c.Knows ch

theorem entry_unique {g : Globals} {prec : DbCommon} {n m : ℤ} {ch ch' : Char}
    (h : Entry g prec n ch) (h' : Entry g prec m ch') : n = m ∧ ch = ch' := by
  obtain ⟨i, hi, hentry, -⟩ := h
  obtain ⟨i', hi', hentry', -⟩ := h'
  obtain rfl : i = i' := Option.some.inj (hi.symm.trans hi')
  have hsame : (⟨n, ch⟩ : my_dpvt_s) = ⟨m, ch'⟩ := hentry.symm.trans hentry'
  exact ⟨congrArg my_dpvt_s.address hsame, congrArg my_dpvt_s.what hsame⟩

theorem ScanCall.Number.unique {g : Globals} {c : ScanCall} {n m : ℤ} (h : c.Number g n)
    (h' : c.Number g m) : n = m := by
  obtain ⟨ch, hp⟩ := h
  obtain ⟨ch', hp'⟩ := h'
  exact (entry_unique hp hp').1

theorem ScanCall.transacts_iff {g : Globals} {c : ScanCall} {n : ℤ} {ch : Char}
    (hp : Entry g c.common n ch) : c.Transacts g ↔ c.Knows ch := by
  constructor
  · rintro ⟨m, ch', hp', hknows⟩
    obtain ⟨-, rfl⟩ := entry_unique hp hp'
    exact hknows
  · exact fun h => ⟨n, ch, hp, h⟩

/-- The operation is a transaction on the bus. -/
def Transaction : DevOp → Prop
  | .read_temp_ds75 _ _ _ | .access_ds75_details _ _ _ _ _ _ => True
  | _ => False

theorem transaction_of_probeCall {fd addr : ℤ} {o : DevOp} (h : ProbeCall fd addr o) :
    Transaction o := by
  cases o <;> trivial

/-- What a call does after it has looked up its private data: it selects the stub of its number, and
then makes its transaction, if it makes one. -/
structure Shape (n : ℤ) (transacts : Prop) (p : Prog DevSig ℤ) (rest : ℤ → Prog DevSig ℤ) : Prop where
  eq : p = (select_probe (n % 8)).bind rest
  only : ∀ sel, (rest sel).Only Transaction
  some : transacts → ∃ o k, rest 0 = .vis o k ∧ Transaction o
  none : ¬ transacts → ∀ sel, ∃ a, rest sel = ret a

theorem shape_of_dispatch {α : Type} (n : ℤ) (fail : α) (p : Prog DevSig α) (result : α → ℤ)
    {transacts : Prop} (honly : p.Only Transaction)
    (hsome : transacts → ∃ o k, p = .vis o k ∧ Transaction o)
    (hnone : ¬ transacts → ∃ a, p = ret a) :
    ∃ rest, Shape n transacts ((select_probe (n % 8)).bind fun sel =>
      (if sel < 0 then ret fail else p).bind fun r => ret (result r)) rest := by
  refine ⟨fun sel => (if sel < 0 then ret fail else p).bind fun r => ret (result r), rfl, ?_, ?_, ?_⟩
  · intro sel
    exact only_bind (only_ite trivial honly) fun _ => trivial
  · intro ht
    obtain ⟨o, k, hk, ho⟩ := hsome ht
    refine ⟨o, fun r => (k r).bind fun r => ret (result r), ?_, ho⟩
    simp only [lt_irrefl, if_false, hk, vis_bind]
  · intro hno sel
    obtain ⟨a, ha⟩ := hnone hno
    by_cases hsel : sel < 0
    · exact ⟨result fail, by simp only [hsel, if_true, ret_bind]⟩
    · exact ⟨result a, by simp only [hsel, if_false, ha, ret_bind]⟩

/-- **The shape of a call.** -/
theorem ScanCall.shape (T : Target) {g : Globals} {c : ScanCall} {n : ℤ} (h : c.Number g n) :
    ∃ rest, Shape n (c.Transacts g) (c.prog T g) rest := by
  obtain ⟨ch, hp⟩ := h
  have htrans := ScanCall.transacts_iff hp
  rcases c with ⟨prec, cfg₀⟩ | prec
  · have hprog : (read_ai prec cfg₀).prog T g = (select_probe (n % 8)).bind fun sel =>
        (if sel < 0 then ret (-1, prec.val)
          else read_what g.global_fd_i2c (n / 8) ch prec.val cfg₀).bind fun r =>
        ret (ai_result prec r).1 := by
      show (Driver.read_ai g prec cfg₀).bind _ = _
      rw [read_ai_entry hp]
      simp only [Prog.bind_assoc, ret_bind]
    rw [hprog]
    refine shape_of_dispatch n _ _ (fun r => (ai_result prec r).1) ?_ (fun ht => ?_) (fun hno => ?_)
    · exact (read_what_only _ _ _ _ _).mono fun o ho => transaction_of_probeCall ho
    · obtain ⟨o, k, hk, ho⟩ := read_what_of (htrans.mp ht) g.global_fd_i2c (n / 8) prec.val cfg₀
      exact ⟨o, k, hk, transaction_of_probeCall ho⟩
    · exact ⟨_, read_what_of_not (fun hr => hno (htrans.mpr hr)) _ _ _ _⟩
  · have hprog : (write_ao prec).prog T g = (select_probe (n % 8)).bind fun sel =>
        (if sel < 0 then ret (-1)
          else write_what T g.global_fd_i2c (n / 8) ch prec.val).bind fun r =>
        ret (ao_result prec r).1 := by
      show (Driver.write_ao T g prec).bind _ = _
      rw [write_ao_entry T hp]
      simp only [Prog.bind_assoc, ret_bind]
    rw [hprog]
    refine shape_of_dispatch n _ _ (fun r => (ao_result prec r).1) ?_ (fun ht => ?_) (fun hno => ?_)
    · exact (write_what_only _ _ _ _ _).mono fun o ho => transaction_of_probeCall ho
    · obtain ⟨o, k, hk, ho⟩ := write_what_of (htrans.mp ht) g.global_fd_i2c (n / 8)
      exact ⟨o, k, hk, transaction_of_probeCall ho⟩
    · exact ⟨_, write_what_of_not (fun hr => hno (htrans.mpr hr)) _ _⟩

/-! ### The pins -/

/-- Every pin write succeeds, in one step; a transaction has any outcome. -/
def pinEnv : Env DevSig (ℤ → Bool) := fun v o r v' =>
  match o, r with
  | .gpio_write gpio state, r => (0 : ℤ) ≤ r ∧ v' = Function.update v gpio (decide (state ≠ 0))
  | _, _ => v' = v

/-- The levels of the mux pins that are right for a stub stay right. -/
def Keeps (istub : ℤ) (v v' : ℤ → Bool) : Prop :=
  (v 26 = istub.toNat.testBit 0 → v' 26 = istub.toNat.testBit 0) ∧
  (v 46 = istub.toNat.testBit 1 → v' 46 = istub.toNat.testBit 1) ∧
  (v 65 = istub.toNat.testBit 2 → v' 65 = istub.toNat.testBit 2)

theorem Keeps.refl (istub : ℤ) (v : ℤ → Bool) : Keeps istub v v := ⟨id, id, id⟩

theorem Keeps.trans {istub : ℤ} {v v' v'' : ℤ → Bool} (h : Keeps istub v v')
    (h' : Keeps istub v' v'') : Keeps istub v v'' :=
  ⟨fun k => h'.1 (h.1 k), fun k => h'.2.1 (h.2.1 k), fun k => h'.2.2 (h.2.2 k)⟩

/-- The operations of a call for the stub `istub`. -/
def StubOp (istub : ℤ) (o : DevOp) : Prop :=
  o = .gpio_write 26 (bit istub 0) ∨ o = .gpio_write 46 (bit istub 1) ∨
    o = .gpio_write 65 (bit istub 2) ∨ Transaction o

theorem pinEnv_keeps {istub : ℤ} {o : DevOp} {r : o.Reply} {v v' : ℤ → Bool}
    (ho : StubOp istub o) (he : pinEnv v o r v') : Keeps istub v v' := by
  rcases ho with rfl | rfl | rfl | ho
  · obtain ⟨-, rfl⟩ : (0 : ℤ) ≤ r ∧ _ := he
    rw [decide_bit_ne_zero]
    exact ⟨fun _ => by simp, fun k => by simpa using k, fun k => by simpa using k⟩
  · obtain ⟨-, rfl⟩ : (0 : ℤ) ≤ r ∧ _ := he
    rw [decide_bit_ne_zero]
    exact ⟨fun k => by simpa using k, fun _ => by simp, fun k => by simpa using k⟩
  · obtain ⟨-, rfl⟩ : (0 : ℤ) ≤ r ∧ _ := he
    rw [decide_bit_ne_zero]
    exact ⟨fun k => by simpa using k, fun k => by simpa using k, fun _ => by simp⟩
  · have hv : v' = v := by
      cases o with
      | read_temp_ds75 fd addr t => exact he
      | access_ds75_details fd addr a b c m => exact he
      | _ => exact ho.elim
    rw [hv]
    exact .refl _ _

theorem select_probe_stub (istub : ℤ) : (select_probe istub).Only (StubOp istub) := by
  unfold select_probe
  refine only_ite trivial ⟨.inl rfl, fun _ => only_ite trivial ⟨.inr (.inl rfl), fun _ => ?_⟩⟩
  exact only_ite trivial ⟨.inr (.inr (.inl rfl)), fun _ => only_ite trivial trivial⟩

/-- **A selection under interference** of calls for the same stub only: the mux holds the stub at its
end. -/
theorem wp_select_probe_rely {istub : ℤ} (h0 : 0 ≤ istub) (h8 : istub < 8)
    {G : (ℤ → Bool) → DevOp → Prop} (hG : ∀ v gpio state, G v (.gpio_write gpio state))
    (v : ℤ → Bool) :
    wp (relyEnv (Keeps istub) pinEnv) (relyGuard (Keeps istub) G)
      (fun _ v' => mux_holds v' istub) (select_probe istub) v := by
  refine wp_select_rule (I := fun v => v 26 = istub.toNat.testBit 0)
    (J := fun v => v 26 = istub.toNat.testBit 0 ∧ v 46 = istub.toNat.testBit 1)
    (fun hrange => absurd hrange (by omega)) ⟨fun _ _ => hG _ _ _, ?_⟩
    (fun v₀ h26 => ⟨fun _ _ => hG _ _ _, ?_⟩) (fun v₁ hv₁ => ⟨fun _ _ => hG _ _ _, ?_⟩)
  · rintro r v' ⟨u, -, hr, rfl⟩
    rw [decide_bit_ne_zero]
    exact ⟨fun hneg => absurd hneg (not_lt.mpr hr), fun _ => by simp⟩
  · rintro r v' ⟨u, hk, hr, rfl⟩
    have h26' : u 26 = istub.toNat.testBit 0 := hk.1 h26
    rw [decide_bit_ne_zero]
    exact ⟨fun hneg => absurd hneg (not_lt.mpr hr), fun _ => ⟨by simpa using h26', by simp⟩⟩
  · rintro r v' ⟨u, hk, hr, rfl⟩
    have h26' : u 26 = istub.toNat.testBit 0 := hk.1 hv₁.1
    have h46' : u 46 = istub.toNat.testBit 1 := hk.2.1 hv₁.2
    rw [decide_bit_ne_zero]
    exact ⟨fun hneg => absurd hneg (not_lt.mpr hr),
      fun _ => ⟨by simpa using h26', by simpa using h46', by simp⟩⟩

/-- A selection can go through, and then the mux holds the stub. -/
theorem returns_select_probe {istub : ℤ} (h0 : 0 ≤ istub) (h8 : istub < 8) (v : ℤ → Bool) :
    ∃ v', Returns pinEnv (select_probe istub) v 0 v' ∧ mux_holds v' istub := by
  have hwrite : ∀ (v : ℤ → Bool) (gpio : ℤ) (i : ℕ), pinEnv v (.gpio_write gpio (bit istub i)) (0 : ℤ)
      (Function.update v gpio (istub.toNat.testBit i)) := by
    intro v gpio i
    rw [← decide_bit_ne_zero]
    exact ⟨le_refl 0, rfl⟩
  unfold select_probe
  rw [if_neg (by omega)]
  refine ⟨_, .step (hwrite v 26 0) (.step (hwrite _ 46 1) (.step (hwrite _ 65 2) (.refl _ _))), ?_⟩
  exact ⟨by simp, by simp, by simp⟩

/-- The mux holds one stub at a time. -/
theorem mux_holds_unique {a b : ℤ} (ha : 0 ≤ a ∧ a < 8) (hb : 0 ≤ b ∧ b < 8) {v : ℤ → Bool}
    (h : mux_holds v a) (h' : mux_holds v b) : a = b := by
  have h1 := mux_stub_of_holds ha.1 ha.2 h
  have h2 := mux_stub_of_holds hb.1 hb.2 h'
  omega

/-! ### Crosstalk -/

section Threads

variable {Th : Type} [DecidableEq Th] {T : Target} {g : Globals} {may : Th → ScanCall → Prop}

/-- In every reachable state, a transaction that is due for a record finds the mux holding the stub of
the record. -/
def NoCrosstalk (T : Target) (g : Globals) (may : Th → ScanCall → Prop) : Prop :=
  ∀ v tr P, Pool.Reach (ScanCall.prog T g) may (fun _ => pinEnv) (Pool.start v) tr P →
    ∀ t c i o k n, P.thread t = some ⟨c, i, .vis o k⟩ → Transaction o → c.Number g n →
      mux_holds P.world (n % 8)

/-- **How crosstalk comes about**: a thread that has selected its stub is overtaken by a whole selection
of another thread. -/
theorem stub_of_no_crosstalk (h : NoCrosstalk T g may) {t t' : Th} {c c' : ScanCall} {n n' : ℤ}
    (hne : t ≠ t') (hc : may t c) (hc' : may t' c') (hn : c.Number g n) (hn' : c'.Number g n')
    (htrans : c.Transacts g) : n % 8 = n' % 8 := by
  obtain ⟨rest, hshape⟩ := ScanCall.shape T hn
  obtain ⟨rest', hshape'⟩ := ScanCall.shape T hn'
  obtain ⟨o, k, hk, ho⟩ := hshape.some htrans
  obtain ⟨v₁, hsel, -⟩ := returns_select_probe (Int.emod_nonneg n (by omega))
    (Int.emod_lt_of_pos n (by omega)) (fun _ => false)
  obtain ⟨v₂, hsel', hmux'⟩ := returns_select_probe (Int.emod_nonneg n' (by omega))
    (Int.emod_lt_of_pos n' (by omega)) v₁
  have hrun : Steps pinEnv (c.prog T g) (fun _ => false) (.vis o k) v₁ := by
    rw [hshape.eq, ← hk]
    exact hsel.bind rest
  have hrun' : Steps pinEnv (c'.prog T g) v₁ (rest' 0) v₂ := by
    rw [hshape'.eq]
    exact hsel'.bind rest'
  obtain ⟨tr₁, P₁, i, hr₁, ht₁, hw₁, hother₁⟩ := Pool.reach_call (.init : Pool.Reach _ may _ _ _ _)
    rfl hc hrun
  have hidle : P₁.thread t' = none := hother₁ t' (Ne.symm hne)
  obtain ⟨tr₂, P₂, i', hr₂, -, hw₂, hother₂⟩ := Pool.reach_call hr₁ hidle hc' (hw₁ ▸ hrun')
  have ht₂ : P₂.thread t = some ⟨c, i, .vis o k⟩ := (hother₂ t hne).trans ht₁
  have hmux : mux_holds P₂.world (n % 8) := h _ tr₂ P₂ hr₂ t c i o k n ht₂ ho hn
  rw [hw₂] at hmux
  exact mux_holds_unique (by omega) (by omega) hmux hmux'

/-- Under interference for the same stub only, a call makes its transaction on its own stub. -/
theorem call_rely {c : ScanCall} {n : ℤ} (hn : c.Number g n) (v : ℤ → Bool) :
    (c.prog T g).wp
      (relyEnv (fun v v' => ∀ m, c.Number g m → c.Transacts g → Keeps (m % 8) v v') pinEnv)
      (relyGuard (fun v v' => ∀ m, c.Number g m → c.Transacts g → Keeps (m % 8) v v')
        fun v o => Transaction o → ∀ m, c.Number g m → mux_holds v (m % 8))
      (fun _ _ => True) v := by
  obtain ⟨rest, hshape⟩ := ScanCall.shape T hn
  rw [hshape.eq, wp_bind]
  by_cases htrans : c.Transacts g
  · have hR : (fun v v' => ∀ m, c.Number g m → c.Transacts g → Keeps (m % 8) v v') =
        Keeps (n % 8) := by
      funext v v'
      refine propext ⟨fun h => h n hn htrans, fun h m hm _ => ?_⟩
      rw [hm.unique hn]
      exact h
    rw [hR]
    refine wp_conseq (wp_select_probe_rely (by omega) (by omega) (fun _ _ _ => nofun) v)
      fun sel v' hmux => ?_
    have hkeep : ∀ (v : ℤ → Bool) (o : DevOp), Transaction o → mux_holds v (n % 8) →
        relyGuard (S := DevSig) (Keeps (n % 8)) (fun v o => Transaction o → ∀ m, c.Number g m →
          mux_holds v (m % 8)) v o ∧
        ∀ r v', relyEnv (Keeps (n % 8)) pinEnv v o r v' → mux_holds v' (n % 8) := by
      intro v o ho hv
      have hstable : ∀ v₁, Keeps (n % 8) v v₁ → mux_holds v₁ (n % 8) :=
        fun v₁ hk => ⟨hk.1 hv.1, hk.2.1 hv.2.1, hk.2.2 hv.2.2⟩
      refine ⟨fun v₁ hk _ m hm => ?_, ?_⟩
      · rw [hm.unique hn]
        exact hstable v₁ hk
      · rintro r v' ⟨v₁, hk, he⟩
        exact hstable v' (hk.trans (pinEnv_keeps (.inr (.inr (.inr ho))) he))
    have hrest := wp_only (S := DevSig) hkeep (hshape.only sel) hmux
    exact wp_conseq hrest fun _ _ _ => trivial
  · -- without a transaction there is nothing to guard
    have hkeep : ∀ (v : ℤ → Bool) (o : DevOp), ¬ Transaction o → True →
        relyGuard (S := DevSig) (fun v v' => ∀ m, c.Number g m → c.Transacts g → Keeps (m % 8) v v')
          (fun v o => Transaction o → ∀ m, c.Number g m → mux_holds v (m % 8)) v o ∧
        ∀ r v', relyEnv (fun v v' => ∀ m, c.Number g m → c.Transacts g → Keeps (m % 8) v v') pinEnv
          v o r v' → True :=
      fun v o ho _ => ⟨fun _ _ h => absurd h ho, fun _ _ _ => trivial⟩
    have hgpio : (select_probe (n % 8)).Only fun o => ¬ Transaction o := by
      unfold select_probe
      exact only_ite trivial ⟨id, fun _ => only_ite trivial ⟨id, fun _ => only_ite trivial
        ⟨id, fun _ => only_ite trivial trivial⟩⟩⟩
    have hselect := wp_only (S := DevSig) (w := v) hkeep hgpio trivial
    refine wp_conseq hselect fun sel v' _ => ?_
    obtain ⟨a, ha⟩ := hshape.none htrans sel
    rw [ha]
    trivial

/-- A call works on its own stub only. -/
theorem call_stub (T : Target) {c : ScanCall} {n : ℤ} (hn : c.Number g n) :
    (c.prog T g).Only fun o => ∀ m, c.Number g m → StubOp (m % 8) o := by
  obtain ⟨rest, hshape⟩ := ScanCall.shape T hn
  have hone : ∀ o, StubOp (n % 8) o → ∀ m, c.Number g m → StubOp (m % 8) o := by
    intro o ho m hm
    rw [hm.unique hn]
    exact ho
  rw [hshape.eq]
  refine only_bind ((select_probe_stub _).mono hone) fun sel => ?_
  exact (hshape.only sel).mono fun o ho => hone o (.inr (.inr (.inr ho)))

/-- **When there is no crosstalk**: a record for which transactions are made and any record that another
thread processes have numbers of the same stub. -/
theorem no_crosstalk_iff (hinit : ∀ t c, may t c → ∃ n, c.Number g n) :
    NoCrosstalk T g may ↔ ∀ t t' c c' n n', t ≠ t' → may t c → may t' c' → c.Number g n →
      c'.Number g n' → c.Transacts g → n % 8 = n' % 8 := by
  constructor
  · intro h t t' c c' n n' hne hc hc' hn hn' htrans
    exact stub_of_no_crosstalk h hne hc hc' hn hn' htrans
  · intro hstub v tr P hr t c i o k n ht ho hn
    -- the rely of a call: the pins that are right for its stub stay right
    have honly : ∀ t c, may t c →
        (c.prog T g).Only fun o => ∀ m, c.Number g m → StubOp (m % 8) o := by
      intro t c hc
      obtain ⟨m, hm⟩ := hinit t c hc
      exact call_stub T hm
    have hrely : ∀ t t' c c' (o : DevOp) (r : o.Reply) v v', t ≠ t' → may t c → may t' c' →
        (∀ m, c'.Number g m → StubOp (m % 8) o) → pinEnv v o r v' →
        ∀ m, c.Number g m → c.Transacts g → Keeps (m % 8) v v' := by
      intro t t' c c' o r v v' hne hc hc' ho he m hm htrans
      obtain ⟨m', hm'⟩ := hinit t' c' hc'
      rw [hstub t t' c c' m m' hne hc hc' hm hm' htrans]
      exact pinEnv_keeps (ho m' hm') he
    have hguard := Pool.reach_rely
      (R := fun c v v' => ∀ m, c.Number g m → c.Transacts g → Keeps (m % 8) v v')
      (G := fun c v o => Transaction o → ∀ m, c.Number g m → mux_holds v (m % 8))
      (fun c v m _ _ => .refl _ _)
      (fun c v v' v'' h h' m hm htrans => (h m hm htrans).trans (h' m hm htrans))
      honly (fun t c hc v => (hinit t c hc).elim fun m hm => call_rely hm v) hrely hr ht
    exact hguard ho n hn

end Threads

/-! ### Two scan threads -/

/-- Every number is initialised as a temperature. -/
def temperatures : Globals := ⟨3, fun i => ⟨i, ' '⟩⟩

/-- The scan thread `t` reads the temperature of the number `num t`. -/
def scans (num : Bool → ℤ) (t : Bool) (c : ScanCall) : Prop :=
  c = .read_ai { (default : AiRecord) with dpvt := some (num t) } 0

theorem scans_number {num : Bool → ℤ} (hnum : ∀ t, 0 ≤ num t ∧ num t < 64) {t : Bool}
    {c : ScanCall} (hc : scans num t c) : c.Number temperatures (num t) := by
  subst hc
  exact ⟨' ', num t, rfl, rfl, hnum t⟩

/-- Numbers 0 and 8 are read by two threads. -/
theorem no_crosstalk_same_stub :
    NoCrosstalk ⟨false, fun _ => 0, id⟩ temperatures (scans fun t => if t then 8 else 0) := by
  have hnum : ∀ t : Bool, (0 : ℤ) ≤ (if t then 8 else 0) ∧ (if t then 8 else 0 : ℤ) < 64 := by
    decide
  apply (no_crosstalk_iff fun t c hc => ⟨_, scans_number hnum hc⟩).mpr
  intro t t' c c' n n' _ hc hc' hn hn' _
  obtain rfl := hn.unique (scans_number hnum hc)
  obtain rfl := hn'.unique (scans_number hnum hc')
  cases t <;> cases t' <;> rfl

/-- Numbers 0 and 1, whose probes are behind two stubs. -/
theorem not_no_crosstalk_two_stubs :
    ¬ NoCrosstalk ⟨false, fun _ => 0, id⟩ temperatures (scans fun t => if t then 1 else 0) := by
  have hnum : ∀ t : Bool, (0 : ℤ) ≤ (if t then 1 else 0) ∧ (if t then 1 else 0 : ℤ) < 64 := by
    decide
  intro h
  have hstub := stub_of_no_crosstalk h (Bool.false_ne_true) rfl rfl
    (scans_number hnum rfl) (scans_number hnum rfl)
    ⟨0, ' ', ⟨0, rfl, rfl, le_refl 0, by decide⟩, .inl rfl⟩
  exact absurd hstub (by decide)

end RackmonIoc.Temp
