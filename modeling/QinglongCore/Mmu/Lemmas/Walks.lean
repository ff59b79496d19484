import QinglongCore.Rtl.Mmu
import Mathlib.Tactic.Common

/-!
# What the walker does in one cycle

The end of a walk writes the walk-result registers of its side, and the TLB entry if the leaf is well formed.
-/

namespace QinglongCore.Mmu

variable {s : State} {i : In} {x y : Xlate} {e : TlbEntry} {tlb : Fin 4 → TlbEntry} {va : Word} {asid : BitVec 9}

/-! ## TLB lookup -/

theorem lookup_none_iff : lookup tlb va asid = none ↔ ∀ k, tlbMatch (tlb k) va asid = false := by
  unfold lookup
  constructor
  · intro h k
    split_ifs at h with h3 h2 h1 h0
    match k with
    | 0 => simpa using h0
    | 1 => simpa using h1
    | 2 => simpa using h2
    | 3 => simpa using h3
  · intro h
    simp [h]

theorem lookup_some (h : lookup tlb va asid = some e) : ∃ k, tlb k = e ∧ tlbMatch e va asid = true := by
  unfold lookup at h
  split_ifs at h with h3 h2 h1 h0 <;> simp only [Option.some.injEq] at h
  · exact ⟨3, h, h ▸ h3⟩
  · exact ⟨2, h, h ▸ h2⟩
  · exact ⟨1, h, h ▸ h1⟩
  · exact ⟨0, h, h ▸ h0⟩

/-- A new entry beside entries that do not match decides the lookup. -/
theorem lookup_of_only {k₀ : Fin 4} (h : ∀ k, k ≠ k₀ → tlbMatch (tlb k) va asid = false) :
    lookup tlb va asid = if tlbMatch (tlb k₀) va asid then some (tlb k₀) else none := by
  cases hm : tlbMatch (tlb k₀) va asid
  · simp only [Bool.false_eq_true, ↓reduceIte]
    rw [lookup_none_iff]
    intro k
    by_cases hk : k = k₀
    · rw [hk, hm]
    · exact h k hk
  · cases hl : lookup tlb va asid with
    | none => rw [lookup_none_iff] at hl; rw [hl k₀] at hm; simp at hm
    | some e =>
        obtain ⟨k, hk, he⟩ := lookup_some hl
        by_cases hkk : k = k₀
        · simp [← hk, hkk]
        · rw [← hk, h k hkk] at he; simp at he

/-! ## Virtual page numbers -/

theorem vpn1_eq (w : Word) : w.extractLsb' 22 10 = (w.extractLsb' 12 20).extractLsb' 10 10 := by
  ext k hk
  simp only [BitVec.getElem_extractLsb', BitVec.getLsbD_extractLsb']
  grind

theorem vpn0_eq (w : Word) : w.extractLsb' 12 10 = (w.extractLsb' 12 20).extractLsb' 0 10 := by
  ext k hk
  simp only [BitVec.getElem_extractLsb', BitVec.getLsbD_extractLsb']
  grind

theorem vpn_ext {a b : BitVec 20} (h1 : a.extractLsb' 10 10 = b.extractLsb' 10 10)
    (h0 : a.extractLsb' 0 10 = b.extractLsb' 0 10) : a = b := by
  ext k hk
  rw [← BitVec.getLsbD_eq_getElem, ← BitVec.getLsbD_eq_getElem]
  by_cases hlt : k < 10
  · have h := congrArg (fun v : BitVec 10 => v.getLsbD k) h0
    simpa [BitVec.getLsbD_extractLsb', hlt] using h
  · have h := congrArg (fun v : BitVec 10 => v.getLsbD (k - 10)) h1
    simpa [BitVec.getLsbD_extractLsb', show k - 10 < 10 by omega, show 10 + (k - 10) = k by omega] using h

/-! ## Steps of a walk -/

/-- A walk that runs keeps what it was launched with. -/
theorem ptwNext_keep (h : s.ptw.state ≠ .idle) :
    (ptwNext s i).side = s.ptw.side ∧ (ptwNext s i).va = s.ptw.va ∧ (ptwNext s i).effPriv = s.ptw.effPriv ∧
      (ptwNext s i).isStore = s.ptw.isStore ∧ (ptwNext s i).isFetch = s.ptw.isFetch := by
  unfold ptwNext
  cases hs : s.ptw.state with
  | idle => exact absurd hs h
  | l1Req => cases i.ptwReqReady <;> simp
  | l1Wait =>
      cases i.ptwRspValid <;> cases l1Bad i || Pte.isLeaf i.ptwRspRdata <;> simp
  | l0Req => cases i.ptwReqReady <;> simp
  | l0Wait => cases i.ptwRspValid <;> simp

/-- An idle walker is launched for the fetch side, for the data side, or not at all. -/
theorem ptwNext_idle (h : s.ptw.state = .idle) :
    (ifNeedsWalk s i = true ∧ ptwNext s i =
        { s.ptw with
          state := .l1Req, side := false, va := i.ifp.req.addr, isFetch := true, isStore := false
          effPriv := i.ctx.priv }) ∨
    (ifNeedsWalk s i = false ∧ dmNeedsWalk s i = true ∧ ptwNext s i =
        { s.ptw with
          state := .l1Req, side := true, va := i.dmp.req.addr, isFetch := false
          isStore := i.dmp.req.wen, effPriv := i.ctx.dmEffPriv }) ∨
    (ifNeedsWalk s i = false ∧ dmNeedsWalk s i = false ∧ ptwNext s i = s.ptw) := by
  cases hi : ifNeedsWalk s i
  · cases hd : dmNeedsWalk s i
    · exact Or.inr (Or.inr ⟨rfl, rfl, by simp [ptwNext, launchIf, launchDm, h, hi, hd]⟩)
    · exact Or.inr (Or.inl ⟨rfl, rfl, by simp [ptwNext, launchIf, launchDm, h, hi, hd]⟩)
  · exact Or.inl ⟨rfl, by simp [ptwNext, launchIf, h, hi]⟩

/-- A walk at level 0 was there before, or comes from the response of level 1. -/
theorem ptwNext_l0 (h : (ptwNext s i).state = .l0Req ∨ (ptwNext s i).state = .l0Wait) :
    (s.ptw.state = .l1Wait ∧ i.ptwRspValid = true) ∨ s.ptw.state = .l0Req ∨ s.ptw.state = .l0Wait := by
  cases hs : s.ptw.state with
  | idle =>
      rcases ptwNext_idle (i := i) hs with ⟨-, he⟩ | ⟨-, -, he⟩ | ⟨-, -, he⟩ <;> rw [he] at h <;> simp [hs] at h
  | l1Req => cases hr : i.ptwReqReady <;> simp [ptwNext, hs, hr] at h
  | l1Wait =>
      cases hr : i.ptwRspValid
      · simp [ptwNext, hs, hr] at h
      · exact Or.inl ⟨rfl, rfl⟩
  | l0Req => exact Or.inr (Or.inl rfl)
  | l0Wait => exact Or.inr (Or.inr rfl)

theorem needsWalk_elim {x : Side} {c : Ctx} {a : Access} {p : Port} (h : x.needsWalk c a p = true) :
    p.reqValid = true ∧ a.xlate = true ∧ (x.hit c p).isNone = true ∧ x.cacheLive p = false := by
  simp only [Side.needsWalk, Bool.and_eq_true, Bool.not_eq_true'] at h
  exact ⟨h.1.1.2, h.1.1.1, h.1.2, by simpa [Side.cacheLive, Side.cacheUsable, h.1.1.2] using h.2⟩

/-! ## Ends of walks -/

theorem walkXlate_cases (h : walkXlate s i x = some y) :
    (s.ptw.state = .l1Wait ∧ i.ptwRspValid = true ∧ l1Bad i = true ∧
      y = { x with valid := true, fault := true, va := s.ptw.va }) ∨
    (s.ptw.state = .l1Wait ∧ i.ptwRspValid = true ∧ l1Bad i = false ∧ Pte.isLeaf i.ptwRspRdata = true ∧
      y = ⟨true, !l1LeafOk s i,
        if l1LeafOk s i then (Pte.ppn1 i.ptwRspRdata).extractLsb' 0 10 ++ s.ptw.va.extractLsb' 0 22 else 0,
        s.ptw.va⟩) ∨
    (s.ptw.state = .l0Wait ∧ i.ptwRspValid = true ∧
      y = ⟨true, !l0LeafOk s i,
        if l0LeafOk s i then
          (Pte.ppn1 i.ptwRspRdata).extractLsb' 0 10 ++ Pte.ppn0 i.ptwRspRdata ++ s.ptw.va.extractLsb' 0 12
        else 0, s.ptw.va⟩) := by
  unfold walkXlate at h
  cases hs : s.ptw.state <;> simp only [hs] at h
  case l1Wait =>
    cases hv : i.ptwRspValid <;> cases hb : l1Bad i <;> cases hl : Pte.isLeaf i.ptwRspRdata <;>
      simp only [hv, hb, hl, Bool.false_eq_true, ↓reduceIte, Option.some.injEq, reduceCtorEq] at h
    · exact Or.inr (Or.inl ⟨rfl, rfl, rfl, rfl, h.symm⟩)
    · exact Or.inl ⟨rfl, rfl, rfl, h.symm⟩
    · exact Or.inl ⟨rfl, rfl, rfl, h.symm⟩
  case l0Wait =>
    cases hv : i.ptwRspValid <;> simp only [hv, Bool.false_eq_true, ↓reduceIte, Option.some.injEq, reduceCtorEq] at h
    exact Or.inr (Or.inr ⟨rfl, rfl, h.symm⟩)
  all_goals simp at h

theorem walkXlate_valid (h : walkXlate s i x = some y) : y.valid = true := by
  rcases walkXlate_cases h with ⟨-, -, -, rfl⟩ | ⟨-, -, -, -, rfl⟩ | ⟨-, -, rfl⟩ <;> rfl

theorem walkXlate_va (h : walkXlate s i x = some y) : y.va = s.ptw.va := by
  rcases walkXlate_cases h with ⟨-, -, -, rfl⟩ | ⟨-, -, -, -, rfl⟩ | ⟨-, -, rfl⟩ <;> rfl

theorem ptwNext_of_walkXlate (h : walkXlate s i x = some y) : (ptwNext s i).state = .idle := by
  unfold ptwNext
  rcases walkXlate_cases h with ⟨hs, hv, hb, -⟩ | ⟨hs, hv, -, hl, -⟩ | ⟨hs, hv, -⟩
  · simp [hs, hv, hb]
  · simp [hs, hv, hl]
  · simp [hs, hv]

theorem walkFill_cases (h : walkFill s i = some e) :
    (s.ptw.state = .l1Wait ∧ i.ptwRspValid = true ∧ l1Bad i = false ∧ Pte.isLeaf i.ptwRspRdata = true ∧
      l1Misaligned i = false ∧ e = fillEntry i.ctx.asid true s.ptw.va i.ptwRspRdata) ∨
    (s.ptw.state = .l0Wait ∧ i.ptwRspValid = true ∧ l0WellFormed i = true ∧
      e = fillEntry i.ctx.asid false s.ptw.va i.ptwRspRdata) := by
  unfold walkFill at h
  cases hs : s.ptw.state <;> simp only [hs] at h
  case l1Wait =>
    split at h
    · next hc =>
        simp only [Bool.and_eq_true, Bool.not_eq_true'] at hc
        simp only [Option.some.injEq] at h
        exact Or.inl ⟨rfl, hc.1.1.1, hc.1.1.2, hc.1.2, hc.2, h.symm⟩
    · simp at h
  case l0Wait =>
    split at h
    · next hc =>
        simp only [Bool.and_eq_true] at hc
        simp only [Option.some.injEq] at h
        exact Or.inr ⟨rfl, hc.1, hc.2, h.symm⟩
    · simp at h
  all_goals simp at h

theorem extract_append_hi {m n : Nat} (k : Nat) (a : BitVec m) (b : BitVec n) :
    (a ++ b).extractLsb' n k = a.extractLsb' 0 k := by
  ext j hj; simp [BitVec.getLsbD_append]

theorem extract_append_lo {m n k : Nat} (a : BitVec m) (b : BitVec n) :
    (a ++ b).extractLsb' 0 (k + n) = a.extractLsb' 0 k ++ b := by
  ext j hj
  simp only [BitVec.getElem_extractLsb', BitVec.getLsbD_append, BitVec.getElem_append, Nat.zero_add]
  split
  · next h => exact BitVec.getLsbD_eq_getElem h
  · rfl

theorem tlbMatch_fillEntry (asid : BitVec 9) (isSp : Bool) (va pte : Word) :
    tlbMatch (fillEntry asid isSp va pte) va asid = true := by
  cases isSp
  · have h₁ : (va.extractLsb' 12 20).extractLsb' 10 10 = va.extractLsb' 22 10 := by
      ext k hk; simp only [BitVec.getElem_extractLsb', BitVec.getLsbD_extractLsb']; grind
    have h₂ : (va.extractLsb' 12 20).extractLsb' 0 10 = va.extractLsb' 12 10 := by
      ext k hk; simp; omega
    simp [tlbMatch, fillEntry, h₁, h₂]
  · have h₁ : (va.extractLsb' 22 10 ++ 0#10).extractLsb' 10 10 = va.extractLsb' 22 10 :=
      (extract_append_hi 10 _ _).trans (by simp)
    simp [tlbMatch, fillEntry, h₁]

/-- A walk that ends writes the walk-result registers; it fills the TLB unless it faults for the form of an
entry, and its verdict is that of the entry it fills. -/
theorem walk_end (h : walkXlate s i x = some y) :
    match walkFill s i with
    | some e =>
        tlbMatch e s.ptw.va i.ctx.asid = true ∧ (y.fault = false → y.pa = e.pa s.ptw.va) ∧
          y.fault = !permOk s.ptw.effPriv s.ptw.isFetch s.ptw.isStore e.r e.w e.x e.u e.a e.d i.ctx.sum i.ctx.mxr
    | none => y.fault = true := by
  rcases walkXlate_cases h with ⟨hs, hv, hb, rfl⟩ | ⟨hs, hv, hb, hl, rfl⟩ | ⟨hs, hv, rfl⟩
  · simp [walkFill, hs, hv, hb]
  · cases hm : l1Misaligned i
    · have hf : walkFill s i = some (fillEntry i.ctx.asid true s.ptw.va i.ptwRspRdata) := by
        simp [walkFill, hs, hv, hb, hl, hm]
      rw [hf]
      have hok : l1LeafOk s i = ptePermOk s i := by simp [l1LeafOk, hm]
      refine ⟨tlbMatch_fillEntry _ _ _ _, ?_, by rw [hok]; rfl⟩
      intro hfault
      have hok' : l1LeafOk s i = true := by simpa using hfault
      have hp : (Pte.ppn1 i.ptwRspRdata ++ 0#10).extractLsb' 10 10 = (Pte.ppn1 i.ptwRspRdata).extractLsb' 0 10 :=
        extract_append_hi 10 _ _
      simp [hok', TlbEntry.pa, fillEntry, hp]
    · have hf : walkFill s i = none := by simp [walkFill, hs, hv, hb, hl, hm]
      rw [hf]
      simp [l1LeafOk, hm]
  · cases hw : l0WellFormed i
    · have hf : walkFill s i = none := by simp [walkFill, hs, hv, hw]
      rw [hf]
      simp [l0LeafOk, hw]
    · have hf : walkFill s i = some (fillEntry i.ctx.asid false s.ptw.va i.ptwRspRdata) := by
        simp [walkFill, hs, hv, hw]
      rw [hf]
      have hok : l0LeafOk s i = ptePermOk s i := by simp [l0LeafOk, hw]
      refine ⟨tlbMatch_fillEntry _ _ _ _, ?_, by rw [hok]; rfl⟩
      intro hfault
      have hok' : l0LeafOk s i = true := by simpa using hfault
      have hp : (Pte.ppn1 i.ptwRspRdata ++ Pte.ppn0 i.ptwRspRdata).extractLsb' 0 20 =
          (Pte.ppn1 i.ptwRspRdata).extractLsb' 0 10 ++ Pte.ppn0 i.ptwRspRdata := extract_append_lo _ _
      simp [hok', TlbEntry.pa, fillEntry, hp]

theorem walkFill_of_no_end (h : walkXlate s i x = none) : walkFill s i = none := by
  cases hf : walkFill s i with
  | none => rfl
  | some e =>
      rcases walkFill_cases hf with ⟨hs, hv, hb, hl, -, -⟩ | ⟨hs, hv, -⟩
      · simp [walkXlate, hs, hv, hb, hl] at h
      · simp [walkXlate, hs, hv] at h

/-! ## Entries after the edge -/

/-- An entry that is valid after the edge was filled, or stood there and was not dropped. -/
theorem tlbNext_valid {x : Side} {f : Sfence} {fill : Option TlbEntry} {k : Fin 4} (hv : (x.tlbNext f fill k).valid = true) :
    (∃ e, fill = some e ∧ k = x.repl ∧ x.tlbNext f fill k = e) ∨
    (¬ (fill.isSome = true ∧ k = x.repl) ∧ f.hits (x.tlb k) = false ∧ x.tlbNext f fill k = x.tlb k) := by
  unfold Side.tlbNext at hv ⊢
  cases hh : f.hits (x.tlb k)
  · simp only [hh, Bool.false_eq_true, ↓reduceIte] at hv ⊢
    cases fill with
    | none => exact Or.inr ⟨by simp, trivial, rfl⟩
    | some e =>
        by_cases hk : k = x.repl
        · exact Or.inl ⟨e, rfl, hk, by simp [hk]⟩
        · exact Or.inr ⟨by simp [hk], trivial, by simp [hk]⟩
  · simp [hh] at hv

end QinglongCore.Mmu
