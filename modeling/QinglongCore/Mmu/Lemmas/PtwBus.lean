import QinglongCore.Base.InOrder
import QinglongCore.Mmu.Lemmas.Walks

/-!
# The walker on its bus

A read is asked for until the bus is ready, and then waited for; at most one is outstanding.
-/

namespace QinglongCore.Mmu

def PtwFsm.asks : PtwFsm → Bool
  | .l1Req | .l0Req => true
  | .idle | .l1Wait | .l0Wait => false

def PtwFsm.waits : PtwFsm → Bool
  | .l1Wait | .l0Wait => true
  | .idle | .l1Req | .l0Req => false

/-- The state after the bus has taken the read. -/
def PtwFsm.asked : PtwFsm → PtwFsm
  | .l1Req => .l1Wait
  | .l0Req => .l0Wait
  | s => s

variable (inp : Nat → In)

def ptwIssued (t : Nat) : Bool := ptwReqValid (run inp t) && (inp t).ptwReqReady
def ptwReturned (t : Nat) : Bool := (inp t).ptwRspValid
def ptwAddrAt (t : Nat) : Word := ptwReqAddr (run inp t) (inp t)
def ptwOutstanding : Nat → List Nat := InOrder.outstanding (ptwIssued inp) (ptwReturned inp)

/-- Each read is answered once, in a later cycle; the answer to a read of address `x` is a fault flag and a
word that satisfy `R x`. -/
def PtwServed (R : Word → Bool → Word → Prop) : Prop :=
  InOrder.Serves (ptwIssued inp) (ptwReturned inp) fun a t =>
    R (ptwAddrAt inp a) (inp t).ptwRspFault (inp t).ptwRspRdata

/-- The bus takes every read and answers it in the end. -/
structure PtwFair : Prop where
  ready : ∀ t, ptwReqValid (run inp t) = true → ∃ u, t ≤ u ∧ (inp u).ptwReqReady = true
  prompt : InOrder.Prompt (ptwIssued inp) (ptwReturned inp)

variable {inp} {R : Word → Bool → Word → Prop} {s : State} {i : In} {t u : Nat}

theorem ptwReqValid_eq : ptwReqValid s = s.ptw.state.asks := by
  unfold ptwReqValid
  cases s.ptw.state <;> rfl

theorem ptwNext_ask (h : s.ptw.state.asks = true) :
    ptwNext s i = if i.ptwReqReady then { s.ptw with state := s.ptw.state.asked } else s.ptw := by
  unfold ptwNext
  cases hs : s.ptw.state <;> rw [hs] at h <;> simp [PtwFsm.asks, PtwFsm.asked] at h ⊢

theorem ptwNext_wait (h : s.ptw.state.waits = true) (hr : i.ptwRspValid = false) : ptwNext s i = s.ptw := by
  unfold ptwNext
  cases hs : s.ptw.state <;> rw [hs] at h <;> simp [PtwFsm.waits, hr] at h ⊢

/-- A walker that waits has asked or waited before. -/
theorem waits_elim (h : (ptwNext s i).state.waits = true) :
    (s.ptw.state.asks = true ∧ i.ptwReqReady = true) ∨ (s.ptw.state.waits = true ∧ i.ptwRspValid = false) := by
  cases hs : s.ptw.state with
  | idle =>
      rcases ptwNext_idle (i := i) hs with ⟨-, he⟩ | ⟨-, -, he⟩ | ⟨-, -, he⟩ <;> rw [he] at h <;>
        simp [PtwFsm.waits, hs] at h
  | l1Req => cases hr : i.ptwReqReady <;> simp [ptwNext, hs, hr, PtwFsm.waits, PtwFsm.asks] at h ⊢
  | l0Req => cases hr : i.ptwReqReady <;> simp [ptwNext, hs, hr, PtwFsm.waits, PtwFsm.asks] at h ⊢
  | l1Wait =>
      cases hr : i.ptwRspValid
      · exact Or.inr ⟨rfl, rfl⟩
      · cases hb : l1Bad i || Pte.isLeaf i.ptwRspRdata <;> simp [ptwNext, hs, hr, hb, PtwFsm.waits] at h
  | l0Wait =>
      cases hr : i.ptwRspValid
      · exact Or.inr ⟨rfl, rfl⟩
      · simp [ptwNext, hs, hr, PtwFsm.waits] at h

/-- The read that is outstanding, if any: asked for in the state before the wait. -/
structure PtwOwes (inp : Nat → In) (t : Nat) : Prop where
  none_of : (run inp t).ptw.state.waits = false → ptwOutstanding inp t = []
  one_of : (run inp t).ptw.state.waits = true →
    ∃ a, a < t ∧ ptwOutstanding inp t = [a] ∧ (run inp a).ptw.state.asks = true ∧
      ∀ v, a < v → v ≤ t → (run inp v).ptw = { (run inp a).ptw with state := (run inp a).ptw.state.asked }

theorem run_ptw (t : Nat) : (run inp (t + 1)).ptw = ptwNext (run inp t) (inp t) := rfl

theorem ptwIssued_of_not_asks (h : (run inp t).ptw.state.asks = false) : ptwIssued inp t = false := by
  simp [ptwIssued, ptwReqValid_eq, h]

theorem PtwFsm.not_asks_of_waits {f : PtwFsm} (h : f.waits = true) : f.asks = false := by
  cases f <;> simp [PtwFsm.waits, PtwFsm.asks] at h ⊢

theorem PtwFsm.asked_waits {f : PtwFsm} (h : f.asks = true) : f.asked.waits = true := by
  cases f <;> simp [PtwFsm.asks, PtwFsm.asked, PtwFsm.waits] at h ⊢

theorem ptwOwes_step (h : PtwOwes inp t) : PtwOwes inp (t + 1) := by
  cases hw : (run inp t).ptw.state.waits
  · have ho := h.none_of hw
    have hnext : ptwOutstanding inp (t + 1) = if ptwIssued inp t then [t] else [] :=
      InOrder.outstanding_issue ho
    constructor
    · intro hn
      rw [hnext]
      cases hi : ptwIssued inp t
      · rfl
      · simp only [ptwIssued, ptwReqValid_eq, Bool.and_eq_true] at hi
        rw [run_ptw, ptwNext_ask hi.1, hi.2] at hn
        cases hs : (run inp t).ptw.state <;> simp [hs, PtwFsm.asks, PtwFsm.asked, PtwFsm.waits] at hi hn
    · intro hn
      rcases waits_elim (run_ptw t ▸ hn) with ⟨ha, hr⟩ | ⟨hw', -⟩
      · have hi : ptwIssued inp t = true := by simp [ptwIssued, ptwReqValid_eq, ha, hr]
        refine ⟨t, Nat.lt_succ_self t, by rw [hnext, hi]; rfl, ha, ?_⟩
        intro v hv hv'
        have hvt : v = t + 1 := by omega
        rw [hvt, run_ptw, ptwNext_ask ha, hr]
        rfl
      · rw [hw] at hw'; simp at hw'
  · obtain ⟨a, hat, ho, ha, hkeep⟩ := h.one_of hw
    have hi := ptwIssued_of_not_asks (PtwFsm.not_asks_of_waits hw)
    cases hr : (inp t).ptwRspValid
    · have hst : (run inp (t + 1)).ptw = (run inp t).ptw := (run_ptw t).trans (ptwNext_wait hw hr)
      have hnext : ptwOutstanding inp (t + 1) = [a] := (InOrder.outstanding_idle hi hr).trans ho
      constructor
      · intro hn
        rw [hst, hw] at hn
        simp at hn
      · intro _
        refine ⟨a, by omega, hnext, ha, ?_⟩
        intro v hv hv'
        rcases Nat.lt_or_ge v (t + 1) with hlt | hge
        · exact hkeep v hv (by omega)
        · have hvt : v = t + 1 := by omega
          rw [hvt, hst]
          exact hkeep t hat le_rfl
    · have hnext : ptwOutstanding inp (t + 1) = [] := InOrder.outstanding_return ho hi hr
      constructor
      · exact fun _ => hnext
      · intro hn
        rcases waits_elim (run_ptw t ▸ hn) with ⟨ha', -⟩ | ⟨-, hr'⟩
        · rw [PtwFsm.not_asks_of_waits hw] at ha'; simp at ha'
        · rw [hr] at hr'; simp at hr'

theorem ptwOwes_run (t : Nat) : PtwOwes inp t := by
  induction t with
  | zero => exact ⟨fun _ => rfl, fun h => by simp [run, reset, PtwFsm.waits] at h⟩
  | succ t ih => exact ptwOwes_step ih

/-- A read that is asked for is taken in a cycle `a` and answered in a cycle `r`, for all that time the walker
keeps its registers. -/
theorem read_phase (hb : PtwServed inp R) (hf : PtwFair inp) (h : (run inp t).ptw.state.asks = true) :
    ∃ a r, t ≤ a ∧ a < r ∧ (∀ u, t ≤ u → u ≤ a → (run inp u).ptw = (run inp t).ptw) ∧
      (∀ u, a < u → u ≤ r → (run inp u).ptw =
        { (run inp t).ptw with state := (run inp t).ptw.state.asked }) ∧
      (inp r).ptwRspValid = true ∧ R (ptwAddrAt inp a) (inp r).ptwRspFault (inp r).ptwRspRdata := by
  obtain ⟨a, hta, hra, hna⟩ := Sync.first_from (hf.ready t (ptwReqValid_eq.trans h))
  have hstay : ∀ u, t ≤ u → u ≤ a → (run inp u).ptw = (run inp t).ptw := by
    intro u htu
    induction u, htu using Nat.le_induction with
    | base => exact fun _ => rfl
    | succ u htu ih =>
        intro hua
        have hu := ih (by omega)
        rw [run_ptw, ptwNext_ask (hu ▸ h), hna u htu (by omega)]
        exact hu
  have ha := hstay a hta le_rfl
  have hasked : (run inp (a + 1)).ptw = { (run inp t).ptw with state := (run inp t).ptw.state.asked } := by
    rw [run_ptw, ptwNext_ask (ha ▸ h), hra, ha]
    rfl
  have hw : (run inp (a + 1)).ptw.state.waits = true := by rw [hasked]; exact PtwFsm.asked_waits h
  have hret : ∃ u, a + 1 ≤ u ∧ ptwReturned inp u = true := by
    obtain ⟨b, -, hob, -⟩ := (ptwOwes_run (a + 1)).one_of hw
    refine hf.prompt (a + 1) ?_
    unfold ptwOutstanding at hob
    rw [hob]
    simp
  obtain ⟨r, har, hrr, hnr⟩ := Sync.first_from hret
  have hkeep : ∀ u, a + 1 ≤ u → u ≤ r → (run inp u).ptw =
      { (run inp t).ptw with state := (run inp t).ptw.state.asked } := by
    intro u hau
    induction u, hau using Nat.le_induction with
    | base => exact fun _ => hasked
    | succ u hau ih =>
        intro hur
        have hu := ih (by omega)
        have hwu : (run inp u).ptw.state.waits = true := by rw [hu]; exact PtwFsm.asked_waits h
        rw [run_ptw, ptwNext_wait hwu (hnr u hau (by omega))]
        exact hu
  refine ⟨a, r, hta, by omega, hstay, fun u h₁ h₂ => hkeep u h₁ h₂, hrr, ?_⟩
  -- the read that is answered in cycle `r` is the one taken in cycle `a`
  have hwr : (run inp r).ptw.state.waits = true := by rw [hkeep r har le_rfl]; exact PtwFsm.asked_waits h
  obtain ⟨b, hbr, hob, hask, hbetween⟩ := (ptwOwes_run r).one_of hwr
  have hba : b = a := by
    rcases Nat.lt_trichotomy b a with hlt | heq | hgt
    · have hwa := hbetween a hlt (by omega)
      rw [ha] at hwa
      rw [hwa, PtwFsm.not_asks_of_waits (PtwFsm.asked_waits hask)] at h
      simp at h
    · exact heq
    · rw [hkeep b hgt (by omega), PtwFsm.not_asks_of_waits (PtwFsm.asked_waits h)] at hask
      simp at hask
  rw [← hba]
  exact hb.only hob hrr

end QinglongCore.Mmu
