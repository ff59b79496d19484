import QinglongCore.Isa.Sv32
import QinglongCore.Mmu.Lemmas.Walks

/-!
# The wires of the walker against Sv32
-/

namespace QinglongCore.Mmu

open Sv32 (Mode Kind Leaf)

/-- The page number of the root table. -/
def rootPpn (satp : Word) : BitVec 22 := satp.extractLsb' 0 22

def Kind.isFetch : Kind → Bool
  | .fetch => true
  | .load | .store => false

def Kind.isStore : Kind → Bool
  | .store => true
  | .fetch | .load => false

/-- The entry of the architecture that a TLB entry holds. -/
def TlbEntry.pte (e : TlbEntry) : Sv32.Pte := ⟨e.ppn, e.d, e.a, e.g, e.u, e.x, e.w, e.r, true⟩

def TlbEntry.leaf (e : TlbEntry) : Leaf := ⟨e.isSp, e.pte⟩

variable {w va : Word} {m : Mode} {k : Kind} {sum mxr : Bool}

/-! ## Entries -/

theorem isBad_eq (w : Word) : Pte.isBad w = (Sv32.Pte.ofWord w).invalid := by
  unfold Pte.isBad Sv32.Pte.invalid
  rw [Bool.and_comm]
  rfl

theorem isLeaf_eq (w : Word) : Pte.isLeaf w = (Sv32.Pte.ofWord w).isLeaf := rfl

theorem ppn0_eq (w : Word) : Pte.ppn0 w = (Sv32.Pte.ofWord w).ppn0 := by
  unfold Pte.ppn0 Sv32.Pte.ppn0 Sv32.Pte.ofWord
  ext j hj
  simp
  omega

theorem ppn1_eq (w : Word) : Pte.ppn1 w = (Sv32.Pte.ofWord w).ppn1 := by
  unfold Pte.ppn1 Sv32.Pte.ppn1 Sv32.Pte.ofWord
  ext j hj
  simp only [BitVec.getElem_extractLsb', BitVec.getLsbD_extractLsb']
  grind

theorem ppn_eq (w : Word) : Pte.ppn1 w ++ Pte.ppn0 w = (Sv32.Pte.ofWord w).ppn := by
  unfold Pte.ppn0 Pte.ppn1 Sv32.Pte.ofWord
  ext j hj
  simp only [BitVec.getElem_append, BitVec.getElem_extractLsb']
  split
  · rfl
  · congr 1
    omega

theorem permOk_eq (p : Sv32.Pte) (h : p.invalid = false) :
    permOk m.bits (Kind.isFetch k) (Kind.isStore k) p.r p.w p.x p.u p.a p.d sum mxr =
      Sv32.permitted m k sum mxr p := by
  have hrw : (p.r && p.w) = p.w := by
    unfold Sv32.Pte.invalid at h
    cases hr : p.r <;> cases hw : p.w <;> simp [hr, hw] at h ⊢
  cases m <;> cases k <;>
    simp [permOk, Sv32.permitted, Mode.bits, Kind.isFetch, Kind.isStore, PRV_U, PRV_S, hrw]

/-! ## Addresses -/

theorem setWidth_append {m n k : Nat} (a : BitVec m) (b : BitVec n) :
    (a ++ b).setWidth (k + n) = a.extractLsb' 0 k ++ b := by
  rw [← extract_append_lo]
  ext j hj
  rw [BitVec.getElem_setWidth, BitVec.getElem_extractLsb', Nat.zero_add]

theorem entryAddr_eq (ppn : BitVec 22) (idx : BitVec 10) :
    Sv32.entryAddr ppn idx = (ppn.extractLsb' 0 20 ++ 0#12) + (0#20 ++ idx ++ 0#2) := by
  unfold Sv32.entryAddr
  rw [BitVec.setWidth_add _ _ (by omega), @setWidth_append 22 12 20, @setWidth_append 32 2 30,
    show (0#22 ++ idx : BitVec 32).extractLsb' 0 30 = 0#20 ++ idx from (@extract_append_lo 22 10 20 _ _).trans rfl]

theorem l1Addr_eq (satp va : Word) : l1Addr satp va = Sv32.entryAddr (rootPpn satp) (Sv32.vpn1 va) := by
  rw [entryAddr_eq]
  unfold l1Addr rootPpn Sv32.vpn1
  have h : (satp.extractLsb' 0 22).extractLsb' 0 20 = satp.extractLsb' 0 20 := by
    ext j hj
    simp only [BitVec.getElem_extractLsb', BitVec.getLsbD_extractLsb']
    grind
  rw [h]

theorem l0Addr_eq (w va : Word) :
    l0Addr (Pte.ppn1 w) (Pte.ppn0 w) va = Sv32.entryAddr (Sv32.Pte.ofWord w).ppn (Sv32.vpn0 va) := by
  rw [entryAddr_eq, ← ppn_eq]
  unfold l0Addr Sv32.vpn0
  rw [@extract_append_lo 12 10 10]

theorem leaf_pa_sp (p : Sv32.Pte) :
    Leaf.pa ⟨true, p⟩ va = p.ppn1.extractLsb' 0 10 ++ va.extractLsb' 0 22 := by
  unfold Leaf.pa
  exact (if_pos rfl).trans (@setWidth_append 12 22 10 _ _)

theorem leaf_pa_page (p : Sv32.Pte) :
    Leaf.pa ⟨false, p⟩ va = p.ppn.extractLsb' 0 20 ++ va.extractLsb' 0 12 := by
  unfold Leaf.pa
  exact (if_neg (by simp)).trans (@setWidth_append 22 12 20 _ _)

theorem tlb_pa_eq (e : TlbEntry) : e.pa va = e.leaf.pa va := by
  unfold TlbEntry.pa TlbEntry.leaf
  cases e.isSp
  · rw [leaf_pa_page]
    rfl
  · rw [leaf_pa_sp]
    have h : e.pte.ppn1.extractLsb' 0 10 = e.ppn.extractLsb' 10 10 := by
      unfold Sv32.Pte.ppn1 TlbEntry.pte
      ext j hj
      simp
      omega
    rw [h]
    rfl

end QinglongCore.Mmu
