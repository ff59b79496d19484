import QinglongCore.Mmu.Walker

/-!
# What a walk has read

With constant page tables a walk, the entry it fills and the result it leaves belong to the root table that `satp`
named when the level-1 entry was read.
-/

namespace QinglongCore.Mmu

open Sv32 (Leaf)

/-- The answer to a read of a table that does not change; reads may fault at any time. -/
def holdsUnlessFault (mem : Word → Word) (x : Word) (fault : Bool) (data : Word) : Prop :=
  fault = false → data = mem x

def tables (mem : Word → Word) (x : Word) : Option Word := some (mem x)

/-- A walk at level 0 holds the pointer that the root table has for its address. -/
def PtwExact (mem : Word → Word) (satp : Word) (p : Ptw) : Prop :=
  p.state = .l0Req ∨ p.state = .l0Wait →
    let d := mem (Sv32.entryAddr (rootPpn satp) (Sv32.vpn1 p.va))
    Pte.isBad d = false ∧ Pte.isLeaf d = false ∧ p.l1Ppn1 = Pte.ppn1 d ∧ p.l1Ppn0 = Pte.ppn0 d

/-- For every page it matches the entry holds the leaf below the root table `ppn`. -/
def TlbEntry.Leads (e : TlbEntry) (mem : Word → Word) (ppn : BitVec 22) : Prop :=
  ∀ va asid, tlbMatch e va asid = true →
    Sv32.leafOf (tables mem) ppn va = some e.leaf ∧ e.pte.invalid = false

/-- The `satp` under which the last walk has read its level-1 entry. -/
def walkSatp (inp : Nat → In) : Nat → Word
  | 0 => (inp 0).ctx.satp
  | t + 1 =>
      if (run inp t).ptw.state = .l1Req ∧ (inp t).ptwReqReady = true then (inp t).ctx.satp else walkSatp inp t

variable {mem : Word → Word} {ppn : BitVec 22} {va d : Word} {e : TlbEntry} {x y : Xlate} {inp : Nat → In} {t a : Nat}

/-! ## Entries made of a leaf -/

theorem ofWord_v (h : Pte.isBad d = false) : d.getLsbD 0 = true := by
  simp only [Pte.isBad, Pte.v, Bool.or_eq_false_iff, Bool.not_eq_false'] at h
  exact h.1

theorem fillEntry_pte (asid : BitVec 9) (isSp : Bool) (hbad : Pte.isBad d = false)
    (hsp : isSp = true → Pte.ppn0 d = 0#10) : (fillEntry asid isSp va d).pte = Sv32.Pte.ofWord d := by
  have hppn : (fillEntry asid isSp va d).ppn = (Sv32.Pte.ofWord d).ppn := by
    rw [← ppn_eq]
    cases isSp
    · rfl
    · rw [hsp rfl]
      rfl
  have hv := ofWord_v hbad
  unfold TlbEntry.pte
  rw [hppn]
  simp only [Sv32.Pte.ofWord, fillEntry, Pte.r, Pte.w, Pte.x, Pte.u, Pte.g, Pte.a, Pte.d, hv]

/-- An entry matches the pages that share the page numbers it was filled with. -/
theorem vpn_of_tlbMatch {va' : Word} {asid asid' : BitVec 9} {isSp : Bool}
    (h : tlbMatch (fillEntry asid isSp va d) va' asid' = true) :
    Sv32.vpn1 va' = Sv32.vpn1 va ∧ (isSp = false → Sv32.vpn0 va' = Sv32.vpn0 va) := by
  simp only [tlbMatch, fillEntry, Bool.true_and, Bool.and_eq_true, beq_iff_eq] at h
  obtain ⟨⟨-, h₁⟩, h₀⟩ := h
  cases isSp
  · simp only [Bool.false_eq_true, ↓reduceIte, Bool.false_or, beq_iff_eq] at h₁ h₀
    rw [← vpn1_eq] at h₁
    rw [← vpn0_eq] at h₀
    exact ⟨h₁.symm, fun _ => h₀.symm⟩
  · simp only [↓reduceIte] at h₁
    rw [extract_append_hi 10] at h₁
    refine ⟨?_, by simp⟩
    unfold Sv32.vpn1
    simpa using h₁.symm

theorem leads_superpage (asid : BitVec 9) (hd : d = mem (Sv32.entryAddr ppn (Sv32.vpn1 va)))
    (hbad : Pte.isBad d = false) (hleaf : Pte.isLeaf d = true) (hz : Pte.ppn0 d = 0#10) :
    (fillEntry asid true va d).Leads mem ppn := by
  intro va' asid' hm
  have hpte : (fillEntry asid true va d).pte = Sv32.Pte.ofWord d := fillEntry_pte asid true hbad fun _ => hz
  have hh : holds (tables mem) (Sv32.entryAddr ppn (Sv32.vpn1 va')) false d := by
    rw [(vpn_of_tlbMatch hm).1]
    simp [holds, tables, hd]
  constructor
  · rw [leafOf_of_leaf hh (by simpa using hbad) hleaf, hz]
    unfold TlbEntry.leaf
    rw [hpte]
    rfl
  · rw [hpte, ← isBad_eq]
    exact hbad

theorem leads_page {d₁ : Word} (asid : BitVec 9) (hd₁ : d₁ = mem (Sv32.entryAddr ppn (Sv32.vpn1 va)))
    (hbad₁ : Pte.isBad d₁ = false) (hleaf₁ : Pte.isLeaf d₁ = false)
    (hd : d = mem (Sv32.entryAddr (Sv32.Pte.ofWord d₁).ppn (Sv32.vpn0 va)))
    (hbad : Pte.isBad d = false) (hleaf : Pte.isLeaf d = true) : (fillEntry asid false va d).Leads mem ppn := by
  intro va' asid' hm
  have hpte : (fillEntry asid false va d).pte = Sv32.Pte.ofWord d := fillEntry_pte asid false hbad (by simp)
  obtain ⟨h₁, h₀⟩ := vpn_of_tlbMatch hm
  have hh₁ : holds (tables mem) (Sv32.entryAddr ppn (Sv32.vpn1 va')) false d₁ := by
    rw [h₁]
    simp [holds, tables, hd₁]
  have hh : holds (tables mem) (Sv32.entryAddr (Sv32.Pte.ofWord d₁).ppn (Sv32.vpn0 va')) false d := by
    rw [h₀ rfl]
    simp [holds, tables, hd]
  constructor
  · rw [leafOf_of_pointer hh₁ (by simpa using hbad₁) hleaf₁ hh, hbad, hleaf]
    unfold TlbEntry.leaf
    rw [hpte]
    rfl
  · rw [hpte, ← isBad_eq]
    exact hbad

/-! ## Reads of a walk -/

theorem walkSatp_keep (h : (run inp t).ptw.state ≠ .l1Req) : walkSatp inp (t + 1) = walkSatp inp t := by
  simp [walkSatp, h]

theorem walkSatp_const {satp : Word} (hs : ∀ t, (inp t).ctx.satp = satp) (t : Nat) : walkSatp inp t = satp := by
  induction t with
  | zero => exact hs 0
  | succ t ih =>
      unfold walkSatp
      split
      · exact hs t
      · exact ih

/-- The read of level 1 was taken in cycle `a`, and the walk waits for it since. -/
theorem walkSatp_of_wait (hat : a < t) (ha : (run inp a).ptw.state = .l1Req)
    (hw : ∀ v, a < v → v ≤ t → (run inp v).ptw.state = .l1Wait) : walkSatp inp t = (inp a).ctx.satp := by
  have hr : (inp a).ptwReqReady = true := by
    have h := hw (a + 1) (Nat.lt_succ_self a) hat
    cases hr : (inp a).ptwReqReady
    · rw [run_ptw, ptwNext_ask (by rw [ha]; rfl), hr] at h
      simp [ha] at h
    · rfl
  have htaken : ∀ v, a + 1 ≤ v → v ≤ t → walkSatp inp v = (inp a).ctx.satp := by
    intro v hav
    induction v, hav using Nat.le_induction with
    | base => exact fun _ => by simp [walkSatp, ha, hr]
    | succ v hav ih =>
        intro hvt
        have hs := hw v (by omega) (by omega)
        rw [walkSatp_keep (by simp [hs])]
        exact ih (by omega)
  exact htaken t hat le_rfl

/-- The walker is answered for the entry it stands at. -/
theorem walk_answer {R : Word → Bool → Word → Prop} (hb : PtwServed inp R)
    (hw : (run inp t).ptw.state.waits = true) (hr : (inp t).ptwRspValid = true) :
    R (match (run inp t).ptw.state with
      | .l1Wait => Sv32.entryAddr (rootPpn (walkSatp inp t)) (Sv32.vpn1 (run inp t).ptw.va)
      | _ => l0Addr (run inp t).ptw.l1Ppn1 (run inp t).ptw.l1Ppn0 (run inp t).ptw.va)
      (inp t).ptwRspFault (inp t).ptwRspRdata := by
  obtain ⟨a, hat, ho, hask, hkeep⟩ := (ptwOwes_run t).one_of hw
  have hfit := hb.only ho hr
  rw [hkeep t hat le_rfl]
  unfold ptwAddrAt ptwReqAddr at hfit
  cases hsa : (run inp a).ptw.state <;> rw [hsa] at hask hfit <;> simp [PtwFsm.asks, PtwFsm.asked] at hask hfit ⊢
  · have hwait : ∀ v, a < v → v ≤ t → (run inp v).ptw.state = .l1Wait := by
      intro v h₁ h₂
      rw [hkeep v h₁ h₂, hsa]
      rfl
    rw [walkSatp_of_wait hat hsa hwait, ← l1Addr_eq]
    exact hfit
  · exact hfit

/-- What the walker is answered without a fault is the entry it stands at. -/
theorem walk_data (hb : PtwServed inp (holdsUnlessFault mem)) (hw : (run inp t).ptw.state.waits = true)
    (hr : (inp t).ptwRspValid = true) (hf : (inp t).ptwRspFault = false) :
    (inp t).ptwRspRdata = mem (match (run inp t).ptw.state with
      | .l1Wait => Sv32.entryAddr (rootPpn (walkSatp inp t)) (Sv32.vpn1 (run inp t).ptw.va)
      | _ => l0Addr (run inp t).ptw.l1Ppn1 (run inp t).ptw.l1Ppn0 (run inp t).ptw.va) :=
  walk_answer hb hw hr hf

theorem ptwExact_step (hb : PtwServed inp (holdsUnlessFault mem))
    (h : PtwExact mem (walkSatp inp t) (run inp t).ptw) :
    PtwExact mem (walkSatp inp (t + 1)) (run inp (t + 1)).ptw := by
  intro hl
  rw [run_ptw] at hl ⊢
  have hkeep : walkSatp inp (t + 1) = walkSatp inp t := by
    refine walkSatp_keep fun hs => ?_
    rcases ptwNext_l0 hl with ⟨hs', -⟩ | hs' | hs' <;> rw [hs'] at hs <;> simp at hs
  rw [hkeep]
  rcases ptwNext_l0 hl with ⟨hs₁, hr⟩ | hs₀ | hs₀
  · have hend : (l1Bad (inp t) || Pte.isLeaf (inp t).ptwRspRdata) = false := by
      cases he : l1Bad (inp t) || Pte.isLeaf (inp t).ptwRspRdata
      · rfl
      · simp [ptwNext, hs₁, hr, he] at hl
    have hnext : ptwNext (run inp t) (inp t) = { (run inp t).ptw with
        state := .l0Req, l1Ppn1 := Pte.ppn1 (inp t).ptwRspRdata, l1Ppn0 := Pte.ppn0 (inp t).ptwRspRdata } := by
      simp [ptwNext, hs₁, hr, hend]
    simp only [l1Bad, Bool.or_eq_false_iff] at hend
    have hdata := walk_data hb (by rw [hs₁]; rfl) hr hend.1.1
    rw [hs₁] at hdata
    rw [hnext]
    simp only
    rw [← hdata]
    exact ⟨hend.1.2, hend.2, rfl, rfl⟩
  · have hnext := @ptwNext_ask (run inp t) (inp t) (by rw [hs₀]; rfl)
    have hold := h (Or.inl hs₀)
    rw [hnext]
    split <;> exact hold
  · cases hr : (inp t).ptwRspValid
    · rw [ptwNext_wait (by rw [hs₀]; rfl) hr]
      exact h (Or.inr hs₀)
    · simp [ptwNext, hs₀, hr] at hl

theorem ptwExact_run (hb : PtwServed inp (holdsUnlessFault mem)) (t : Nat) :
    PtwExact mem (walkSatp inp t) (run inp t).ptw := by
  induction t with
  | zero => exact fun h => by simp [run, reset] at h
  | succ t ih => exact ptwExact_step hb ih

/-! ## Ends of a walk -/

theorem walkFill_leads (hb : PtwServed inp (holdsUnlessFault mem)) (hf : walkFill (run inp t) (inp t) = some e) :
    e.Leads mem (rootPpn (walkSatp inp t)) := by
  rcases walkFill_cases hf with ⟨hs₁, hr, hbad, hleaf, hal, rfl⟩ | ⟨hs₀, hr, hw, rfl⟩
  · simp only [l1Bad, Bool.or_eq_false_iff] at hbad
    have hdata := walk_data hb (by rw [hs₁]; rfl) hr hbad.1
    rw [hs₁] at hdata
    exact leads_superpage _ hdata hbad.2 hleaf (by simpa [l1Misaligned] using hal)
  · simp only [l0WellFormed, Bool.and_eq_true, Bool.not_eq_true'] at hw
    have hdata := walk_data hb (by rw [hs₀]; rfl) hr hw.1.1
    rw [hs₀] at hdata
    obtain ⟨hbad₁, hleaf₁, hp₁, hp₀⟩ := ptwExact_run hb t (Or.inr hs₀)
    simp only at hdata
    rw [hp₁, hp₀, l0Addr_eq] at hdata
    exact leads_page _ rfl hbad₁ hleaf₁ hdata hw.1.2 hw.2

theorem walkFill_asid (hf : walkFill (run inp t) (inp t) = some e) : e.asid = (inp t).ctx.asid := by
  rcases walkFill_cases hf with ⟨-, -, -, -, -, rfl⟩ | ⟨-, -, -, rfl⟩ <;> rfl

/-- A walk that ends without a fault leaves the address that its leaf gives. -/
theorem walkXlate_pa (hb : PtwServed inp (holdsUnlessFault mem)) (hx : walkXlate (run inp t) (inp t) x = some y)
    (hy : y.fault = false) :
    ∃ l, Sv32.leafOf (tables mem) (rootPpn (walkSatp inp t)) y.va = some l ∧ y.pa = l.pa y.va := by
  have hend := walk_end hx
  rw [walkXlate_va hx]
  cases hf : walkFill (run inp t) (inp t) with
  | none =>
      rw [hf] at hend
      simp only at hend
      rw [hend] at hy
      simp at hy
  | some e =>
      rw [hf] at hend
      obtain ⟨hm, hpa, -⟩ := hend
      refine ⟨e.leaf, (walkFill_leads hb hf _ _ hm).1, ?_⟩
      rw [hpa hy, tlb_pa_eq]

/-! ## Outcomes of a walk -/

open Sv32 (Mode Kind)

/-- Tables that answer every read. -/
theorem PtwServed.unlessFault (hb : PtwServed inp (holds (tables mem))) : PtwServed inp (holdsUnlessFault mem) := by
  intro t ht
  obtain ⟨a, l, ho, hm⟩ := hb t ht
  refine ⟨a, l, ho, fun hf => ?_⟩
  simp only [holds, tables, hf, Bool.false_eq_true, if_false, Option.some.injEq] at hm
  exact hm.symm

/-- A walk for the fetch side checks for execution. -/
theorem fetches_run (t : Nat) (hb : (run inp t).ptw.state ≠ .idle) (hs : (run inp t).ptw.side = false) :
    (run inp t).ptw.isFetch = true ∧ (run inp t).ptw.isStore = false := by
  induction t with
  | zero => simp [run, reset] at hb
  | succ t ih =>
      rw [run_ptw] at hb hs ⊢
      by_cases hi : (run inp t).ptw.state = .idle
      · rcases ptwNext_idle (i := inp t) hi with ⟨-, he⟩ | ⟨-, -, he⟩ | ⟨-, -, he⟩ <;> rw [he] at hb hs ⊢
        · exact ⟨rfl, rfl⟩
        · simp at hs
        · exact absurd hi hb
      · obtain ⟨h₁, -, -, h₄, h₅⟩ := ptwNext_keep (i := inp t) hi
        rw [h₁] at hs
        rw [h₄, h₅]
        exact ih hi hs

/-- Whatever the context was before, a walk of the fetch side leaves the translation below the root table that it was
made from, for the privilege it was launched with and the permission bits at its end. -/
theorem walkXlate_outcome {m : Mode} (hb : PtwServed inp (holds (tables mem)))
    (hx : walkXlate (run inp t) (inp t) x = some y) (hs : (run inp t).ptw.side = false)
    (hp : (run inp t).ptw.effPriv = m.bits) :
    y.outcome = Sv32.translate (tables mem) (rootPpn (walkSatp inp t)) m .fetch (inp t).ctx.sum (inp t).ctx.mxr y.va := by
  have hfetch : (run inp t).ptw.state ≠ .idle → (run inp t).ptw.isFetch = Kind.isFetch .fetch ∧
      (run inp t).ptw.isStore = Kind.isStore .fetch := fun hi => fetches_run t hi hs
  have hsome : ∀ z, walkXlate (run inp t) (inp t) x = some z → z = y := by
    intro z hz
    rw [hx, Option.some.injEq] at hz
    exact hz.symm
  rw [walkXlate_va hx]
  rcases walkXlate_cases hx with ⟨hst, hr, hbad, -⟩ | ⟨hst, hr, hbad, hleaf, -⟩ | ⟨hst, hr, -⟩
  · have hm := walk_answer hb (by rw [hst]; rfl) hr
    rw [hst] at hm
    obtain ⟨z, hz, -, hout⟩ := outcome_l1_bad (x := x) hst hr hm hbad
    rw [← hsome z hz]
    exact hout
  · obtain ⟨hif, his⟩ := hfetch (by simp [hst])
    have hm := walk_answer hb (by rw [hst]; rfl) hr
    rw [hst] at hm
    obtain ⟨z, hz, -, hout⟩ := outcome_l1_leaf (x := x) hst hr hp hif his hm hbad hleaf
    rw [← hsome z hz]
    exact hout
  · obtain ⟨hif, his⟩ := hfetch (by simp [hst])
    have hm := walk_answer hb (by rw [hst]; rfl) hr
    obtain ⟨hbad₁, hleaf₁, hp₁, hp₀⟩ := ptwExact_run hb.unlessFault t (Or.inr hst)
    rw [hst] at hm
    simp only [hp₁, hp₀, l0Addr_eq] at hm
    have hm₁ : holds (tables mem) (Sv32.entryAddr (rootPpn (walkSatp inp t)) (Sv32.vpn1 (run inp t).ptw.va)) false
        (mem (Sv32.entryAddr (rootPpn (walkSatp inp t)) (Sv32.vpn1 (run inp t).ptw.va))) := rfl
    obtain ⟨z, hz, -, hout⟩ := outcome_l0 (x := x) hst hr hp hif his hm₁ (by simpa using hbad₁) hleaf₁ hm
    rw [← hsome z hz]
    exact hout

end QinglongCore.Mmu
