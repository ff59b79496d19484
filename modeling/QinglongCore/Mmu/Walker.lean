import QinglongCore.Mmu.Lemmas.PtwBus
import QinglongCore.Mmu.Lemmas.Reference

/-!
# The walker computes the Sv32 translation
-/

namespace QinglongCore.Mmu

open Sv32 (Mode Kind Leaf)

/-- The access a walk is launched for. -/
structure WalkFor where
  side : Bool
  va : Word
  priv : BitVec 2
  kind : Kind
  deriving DecidableEq

def launchOf (s : State) (i : In) : Option WalkFor :=
  if launchIf s i then some ⟨false, i.ifp.req.addr, i.ctx.priv, .fetch⟩
  else if launchDm s i then
    some ⟨true, i.dmp.req.addr, i.ctx.dmEffPriv, if i.dmp.req.wen then .store else .load⟩
  else none

def State.side (s : State) (dm : Bool) : Side := if dm then s.dms else s.ifs

/-- The walk-result registers as an outcome: a physical address, or a page fault. -/
def Xlate.outcome (x : Xlate) : Option Word := if x.fault then none else some x.pa

/-- What a walk reads of the context. -/
def Ctx.SameWalk (c c' : Ctx) : Prop := c'.satp = c.satp ∧ c'.sum = c.sum ∧ c'.mxr = c.mxr

/-- The memory of page-table entries; a read that faults gives `none`. -/
def holds (mem : Word → Option Word) (x : Word) (fault : Bool) (data : Word) : Prop :=
  mem x = if fault then none else some data

variable {mem : Word → Option Word} {root : BitVec 22} {va d : Word} {m : Mode} {k : Kind} {sum mxr f : Bool}
  {s : State} {i : In} {x : Xlate} {w : WalkFor}

theorem ptwNext_of_launch (h : launchOf s i = some w) : ptwNext s i =
    { s.ptw with
      state := .l1Req, side := w.side, va := w.va, isFetch := Kind.isFetch w.kind
      isStore := Kind.isStore w.kind, effPriv := w.priv } := by
  have hidle : s.ptw.state = .idle := by
    unfold launchOf launchIf launchDm at h
    cases hs : s.ptw.state <;> simp [hs] at h ⊢
  unfold launchOf at h
  unfold ptwNext
  split_ifs at h with h₁ h₂ hw <;> simp only [Option.some.injEq] at h
  · rw [← h]
    simp [hidle, h₁, Kind.isFetch, Kind.isStore]
  · rw [← h]
    simp [hidle, h₁, h₂, hw, Kind.isFetch, Kind.isStore]
  · rw [← h]
    simp [hidle, h₁, h₂, hw, Kind.isFetch, Kind.isStore]

/-! ## The reference, step by step -/

theorem leafOf_of_bad (h : holds mem (Sv32.entryAddr root (Sv32.vpn1 va)) f d)
    (hbad : (f || Pte.isBad d) = true) : Sv32.leafOf mem root va = none := by
  unfold Sv32.leafOf
  unfold holds at h
  rw [h]
  cases f
  · have hinv : (Sv32.Pte.ofWord d).invalid = true := by
      rw [← isBad_eq]
      simpa using hbad
    simp [hinv]
  · rfl

theorem leafOf_of_leaf (h : holds mem (Sv32.entryAddr root (Sv32.vpn1 va)) f d)
    (hbad : (f || Pte.isBad d) = false) (hleaf : Pte.isLeaf d = true) :
    Sv32.leafOf mem root va = if Pte.ppn0 d = 0 then some ⟨true, Sv32.Pte.ofWord d⟩ else none := by
  simp only [Bool.or_eq_false_iff] at hbad
  have hinv : (Sv32.Pte.ofWord d).invalid = false := by rw [← isBad_eq]; exact hbad.2
  rw [isLeaf_eq] at hleaf
  unfold Sv32.leafOf
  unfold holds at h
  rw [h, hbad.1, ppn0_eq]
  simp [hinv, hleaf]

theorem leafOf_of_pointer {f₀ : Bool} {d₀ : Word} (h : holds mem (Sv32.entryAddr root (Sv32.vpn1 va)) f d)
    (hbad : (f || Pte.isBad d) = false) (hleaf : Pte.isLeaf d = false)
    (h₀ : holds mem (Sv32.entryAddr (Sv32.Pte.ofWord d).ppn (Sv32.vpn0 va)) f₀ d₀) :
    Sv32.leafOf mem root va =
      if !f₀ && !Pte.isBad d₀ && Pte.isLeaf d₀ then some ⟨false, Sv32.Pte.ofWord d₀⟩ else none := by
  simp only [Bool.or_eq_false_iff] at hbad
  have hinv : (Sv32.Pte.ofWord d).invalid = false := by rw [← isBad_eq]; exact hbad.2
  rw [isLeaf_eq] at hleaf
  unfold Sv32.leafOf
  unfold holds at h h₀
  rw [h, hbad.1]
  simp only [Bool.false_eq_true, ↓reduceIte, Option.map_some, hinv, hleaf]
  rw [h₀]
  cases f₀
  · simp only [Bool.false_eq_true, ↓reduceIte, Option.map_some, isBad_eq, isLeaf_eq]
    cases (Sv32.Pte.ofWord d₀).invalid <;> cases (Sv32.Pte.ofWord d₀).isLeaf <;> rfl
  · rfl

/-! ## Ends of a walk -/

/-- The walker judges a leaf as the architecture does. -/
theorem ptePermOk_eq (hp : s.ptw.effPriv = m.bits) (hf : s.ptw.isFetch = Kind.isFetch k)
    (hs : s.ptw.isStore = Kind.isStore k) (hbad : Pte.isBad i.ptwRspRdata = false) :
    ptePermOk s i = Sv32.permitted m k i.ctx.sum i.ctx.mxr (Sv32.Pte.ofWord i.ptwRspRdata) := by
  rw [isBad_eq] at hbad
  unfold ptePermOk
  rw [hp, hf, hs]
  exact permOk_eq _ hbad

theorem outcome_l1_bad (hs : s.ptw.state = .l1Wait) (hr : i.ptwRspValid = true)
    (hm : holds mem (Sv32.entryAddr root (Sv32.vpn1 s.ptw.va)) i.ptwRspFault i.ptwRspRdata)
    (hbad : l1Bad i = true) :
    ∃ y, walkXlate s i x = some y ∧ y.va = s.ptw.va ∧
      y.outcome = Sv32.translate mem root m k sum mxr s.ptw.va := by
  refine ⟨{ x with valid := true, fault := true, va := s.ptw.va }, by simp [walkXlate, hs, hr, hbad], rfl, ?_⟩
  unfold Sv32.translate
  rw [leafOf_of_bad hm hbad]
  rfl

theorem outcome_l1_leaf (hs : s.ptw.state = .l1Wait) (hr : i.ptwRspValid = true) (hp : s.ptw.effPriv = m.bits)
    (hf : s.ptw.isFetch = Kind.isFetch k) (hst : s.ptw.isStore = Kind.isStore k)
    (hm : holds mem (Sv32.entryAddr root (Sv32.vpn1 s.ptw.va)) i.ptwRspFault i.ptwRspRdata)
    (hbad : l1Bad i = false) (hleaf : Pte.isLeaf i.ptwRspRdata = true) :
    ∃ y, walkXlate s i x = some y ∧ y.va = s.ptw.va ∧
      y.outcome = Sv32.translate mem root m k i.ctx.sum i.ctx.mxr s.ptw.va := by
  refine ⟨_, by simp [walkXlate, hs, hr, hbad, hleaf]; rfl, rfl, ?_⟩
  unfold Sv32.translate Xlate.outcome l1LeafOk l1Misaligned
  rw [leafOf_of_leaf hm hbad hleaf]
  have hbad' : Pte.isBad i.ptwRspRdata = false := by
    simp only [l1Bad, Bool.or_eq_false_iff] at hbad
    exact hbad.2
  rw [ptePermOk_eq hp hf hst hbad']
  by_cases hz : Pte.ppn0 i.ptwRspRdata = 0#10
  · cases hok : Sv32.permitted m k i.ctx.sum i.ctx.mxr (Sv32.Pte.ofWord i.ptwRspRdata)
    · simp [hz, hok]
    · simp [hz, hok, leaf_pa_sp, ppn1_eq]
  · simp [hz]

theorem outcome_l0 {f₁ : Bool} {d₁ : Word} (hs : s.ptw.state = .l0Wait) (hr : i.ptwRspValid = true)
    (hp : s.ptw.effPriv = m.bits) (hf : s.ptw.isFetch = Kind.isFetch k) (hst : s.ptw.isStore = Kind.isStore k)
    (hm₁ : holds mem (Sv32.entryAddr root (Sv32.vpn1 s.ptw.va)) f₁ d₁) (hbad₁ : (f₁ || Pte.isBad d₁) = false)
    (hleaf₁ : Pte.isLeaf d₁ = false)
    (hm : holds mem (Sv32.entryAddr (Sv32.Pte.ofWord d₁).ppn (Sv32.vpn0 s.ptw.va)) i.ptwRspFault i.ptwRspRdata) :
    ∃ y, walkXlate s i x = some y ∧ y.va = s.ptw.va ∧
      y.outcome = Sv32.translate mem root m k i.ctx.sum i.ctx.mxr s.ptw.va := by
  refine ⟨_, by simp [walkXlate, hs, hr]; rfl, rfl, ?_⟩
  unfold Sv32.translate Xlate.outcome l0LeafOk
  rw [leafOf_of_pointer hm₁ hbad₁ hleaf₁ hm]
  cases hw : l0WellFormed i
  · have hw' : (!i.ptwRspFault && !Pte.isBad i.ptwRspRdata && Pte.isLeaf i.ptwRspRdata) = false := hw
    rw [hw']
    simp
  · have hw' : (!i.ptwRspFault && !Pte.isBad i.ptwRspRdata && Pte.isLeaf i.ptwRspRdata) = true := hw
    rw [hw']
    simp only [Bool.and_eq_true, Bool.not_eq_true'] at hw'
    rw [ptePermOk_eq hp hf hst hw'.1.2]
    cases hok : Sv32.permitted m k i.ctx.sum i.ctx.mxr (Sv32.Pte.ofWord i.ptwRspRdata)
    · simp [hok]
    · have hpa : (Sv32.Pte.ofWord i.ptwRspRdata).ppn.extractLsb' 0 20 =
          (Pte.ppn1 i.ptwRspRdata).extractLsb' 0 10 ++ Pte.ppn0 i.ptwRspRdata := by
        rw [← ppn_eq]
        exact @extract_append_lo 12 10 10 _ _
      simp [hok, leaf_pa_page, hpa]

/-! ## Whole walks -/

variable {inp : Nat → In} {t : Nat}

/-- A walk ends, for any latency of its reads, with the translation of the architecture. -/
theorem walker_eq_translate (hb : PtwServed inp (holds mem)) (hf : PtwFair inp)
    (hl : launchOf (run inp t) (inp t) = some w) (hm : w.priv = m.bits)
    (hc : ∀ u, t ≤ u → (∀ v, t < v → v ≤ u → (run inp v).ptw.state ≠ .idle) → (inp t).ctx.SameWalk (inp u).ctx) :
    ∃ e, t < e ∧ (∀ u, t < u → u ≤ e → (run inp u).ptw.state ≠ .idle) ∧ (run inp (e + 1)).ptw.state = .idle ∧
      (run inp e).ptw.side = w.side ∧
      ∃ y, walkXlate (run inp e) (inp e) ((run inp e).side w.side).xlate = some y ∧ y.va = w.va ∧
        y.outcome = Sv32.translate mem (rootPpn (inp t).ctx.satp) m w.kind (inp t).ctx.sum (inp t).ctx.mxr w.va := by
  have hstart : (run inp (t + 1)).ptw = _ := (run_ptw t).trans (ptwNext_of_launch hl)
  obtain ⟨a₁, r₁, ha₁, hr₁, hask₁, hwait₁, hrsp₁, hdata₁⟩ :=
    read_phase hb hf (hstart ▸ rfl : (run inp (t + 1)).ptw.state.asks = true)
  rw [hstart] at hask₁ hwait₁
  have hbusy₁ : ∀ u, t < u → u ≤ r₁ → (run inp u).ptw.state ≠ .idle := by
    intro u hu hur
    rcases Nat.lt_or_ge a₁ u with h | h
    · rw [hwait₁ u h hur]
      simp [PtwFsm.asked]
    · rw [hask₁ u hu h]
      simp
  have hca := hc a₁ (by omega) fun v h₁ h₂ => hbusy₁ v h₁ (by omega)
  have hcr := hc r₁ (by omega) fun v h₁ h₂ => hbusy₁ v h₁ h₂
  have hst₁ := hwait₁ r₁ hr₁ le_rfl
  have haddr₁ : ptwAddrAt inp a₁ = Sv32.entryAddr (rootPpn (inp t).ctx.satp) (Sv32.vpn1 w.va) := by
    rw [← l1Addr_eq, ← hca.1]
    simp [ptwAddrAt, ptwReqAddr, hask₁ a₁ ha₁ le_rfl]
  rw [haddr₁] at hdata₁
  have hva₁ : (run inp r₁).ptw.va = w.va := by rw [hst₁]
  have hs₁ : (run inp r₁).ptw.state = .l1Wait := by rw [hst₁]; rfl
  cases hbad : l1Bad (inp r₁)
  · cases hleaf : Pte.isLeaf (inp r₁).ptwRspRdata
    · -- a pointer: the walk goes on at level 0
      have hnext : (run inp (r₁ + 1)).ptw =
          { (run inp r₁).ptw with
            state := .l0Req, l1Ppn1 := Pte.ppn1 (inp r₁).ptwRspRdata, l1Ppn0 := Pte.ppn0 (inp r₁).ptwRspRdata } := by
        rw [run_ptw]
        simp [ptwNext, hs₁, hrsp₁, hbad, hleaf]
      rw [hst₁] at hnext
      obtain ⟨a₀, r₀, ha₀, hr₀, hask₀, hwait₀, hrsp₀, hdata₀⟩ :=
        read_phase hb hf (hnext ▸ rfl : (run inp (r₁ + 1)).ptw.state.asks = true)
      rw [hnext] at hask₀ hwait₀
      have hbusy₀ : ∀ u, t < u → u ≤ r₀ → (run inp u).ptw.state ≠ .idle := by
        intro u hu hur
        rcases Nat.lt_or_ge r₁ u with h | h
        · rcases Nat.lt_or_ge a₀ u with h' | h'
          · rw [hwait₀ u h' hur]
            simp [PtwFsm.asked]
          · rw [hask₀ u h h']
            simp
        · exact hbusy₁ u hu h
      have hst₀ := hwait₀ r₀ hr₀ le_rfl
      have haddr₀ : ptwAddrAt inp a₀ =
          Sv32.entryAddr (Sv32.Pte.ofWord (inp r₁).ptwRspRdata).ppn (Sv32.vpn0 w.va) := by
        rw [← l0Addr_eq]
        simp [ptwAddrAt, ptwReqAddr, hask₀ a₀ ha₀ le_rfl]
      rw [haddr₀] at hdata₀
      have hva₀ : (run inp r₀).ptw.va = w.va := by rw [hst₀]
      have hs₀ : (run inp r₀).ptw.state = .l0Wait := by rw [hst₀]; rfl
      have hcr₀ := hc r₀ (by omega) hbusy₀
      refine ⟨r₀, by omega, hbusy₀, ?_, by rw [hst₀], ?_⟩
      · rw [run_ptw]
        simp [ptwNext, hs₀, hrsp₀]
      · rw [← hva₀] at hdata₁ hdata₀ ⊢
        rw [← hcr₀.2.1, ← hcr₀.2.2]
        exact outcome_l0 hs₀ hrsp₀ (by rw [hst₀]; exact hm) (by rw [hst₀]) (by rw [hst₀]) hdata₁ hbad hleaf hdata₀
    · refine ⟨r₁, by omega, hbusy₁, ?_, by rw [hst₁], ?_⟩
      · rw [run_ptw]
        simp [ptwNext, hs₁, hrsp₁, hleaf]
      · rw [← hva₁] at hdata₁ ⊢
        rw [← hcr.2.1, ← hcr.2.2]
        exact outcome_l1_leaf hs₁ hrsp₁ (by rw [hst₁]; exact hm) (by rw [hst₁]) (by rw [hst₁]) hdata₁ hbad hleaf
  · refine ⟨r₁, by omega, hbusy₁, ?_, by rw [hst₁], ?_⟩
    · rw [run_ptw]
      simp [ptwNext, hs₁, hrsp₁, hbad]
    · rw [← hva₁] at hdata₁ ⊢
      exact outcome_l1_bad hs₁ hrsp₁ hdata₁ hbad

/-! ## A superpage fetch -/

/-- Every word of memory is a superpage leaf; the read of cycle 1 is answered in cycle 3. -/
def spInp (t : Nat) : In where
  ctx := ⟨0x80080000, PRV_S, false, 0, false, false, ⟨fun _ => 0, fun _ => 0⟩⟩
  sfence := ⟨false, false, 0, false, 0⟩
  ifp := ⟨decide (t = 0), Req.fetch 0x40000ABC, false, true, false, 0, false⟩
  dmp := ⟨false, Req.fetch 0, true, true, false, 0, false⟩
  ptwReqReady := true
  ptwRspValid := decide (t = 3)
  ptwRspRdata := 0x200000CF
  ptwRspFault := false

theorem sp_idle (h : 4 ≤ t) : (run spInp t).ptw.state = .idle ∧ ptwOutstanding spInp t = [] := by
  induction t, h using Nat.le_induction with
  | base => decide +kernel
  | succ t ht ih =>
      obtain ⟨hs, ho⟩ := ih
      have hif : ifNeedsWalk (run spInp t) (spInp t) = false := by
        have ht0 : t ≠ 0 := by omega
        simp [ifNeedsWalk, Side.needsWalk, spInp, ht0]
      have hdm : dmNeedsWalk (run spInp t) (spInp t) = false := by simp [dmNeedsWalk, Side.needsWalk, spInp]
      constructor
      · rw [run_ptw]
        simp [ptwNext, hs, launchIf, launchDm, hif, hdm]
      · have hi : ptwIssued spInp t = false := ptwIssued_of_not_asks (by rw [hs]; rfl)
        have hn : ptwOutstanding spInp (t + 1) = if ptwIssued spInp t then [t] else [] :=
          InOrder.outstanding_issue ho
        rw [hi] at hn
        exact hn

theorem walker_superpage : ∃ e, 0 < e ∧ ∃ y, walkXlate (run spInp e) (spInp e) (run spInp e).ifs.xlate = some y ∧
    y.outcome = some 0x80000ABC#32 := by
  have hb : PtwServed spInp (holds fun _ => some 0x200000CF#32) := by
    intro t ht
    have ht3 : t = 3 := by simpa [ptwReturned, spInp] using ht
    exact ⟨1, [], by rw [ht3]; decide +kernel, rfl⟩
  have hf : PtwFair spInp := by
    refine ⟨fun t _ => ⟨t, le_rfl, rfl⟩, fun t ho => ⟨3, ?_, rfl⟩⟩
    by_contra ht
    exact ho (sp_idle (by omega)).2
  have hl : launchOf (run spInp 0) (spInp 0) = some ⟨false, 0x40000ABC, PRV_S, .fetch⟩ := by decide +kernel
  obtain ⟨e, he, -, -, -, y, hy, -, hout⟩ :=
    walker_eq_translate (m := .supervisor) hb hf hl rfl fun _ _ _ => ⟨rfl, rfl, rfl⟩
  exact ⟨e, he, y, hy, hout.trans (by decide)⟩

end QinglongCore.Mmu
