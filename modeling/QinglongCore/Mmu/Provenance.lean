import QinglongCore.Mmu.Lemmas.Forwarding
import QinglongCore.Mmu.Lemmas.Walks

/-!
# Age of cached translations

An auxiliary record beside the MMU: for every TLB entry, for the walk-result registers and for the walk that
runs, the cycle in which its level-1 PTE was read, the oldest PTE it rests on.
-/

namespace QinglongCore.Mmu

/-! ## Ages -/

structure SideAge where
  tlb : Fin 4 → Nat
  xlate : Nat

structure Age where
  ptw : Nat
  ifs : SideAge
  dms : SideAge

/-- The index that `lookup` takes its entry from. -/
def lookupIdx (tlb : Fin 4 → TlbEntry) (va : Word) (asid : BitVec 9) : Option (Fin 4) :=
  if tlbMatch (tlb 3) va asid then some 3
  else if tlbMatch (tlb 2) va asid then some 2
  else if tlbMatch (tlb 1) va asid then some 1
  else if tlbMatch (tlb 0) va asid then some 0
  else none

/-- The age of what the walker has read: this cycle's PTE, or that of level 1 before. -/
def Age.walk (g : Age) (s : State) (now : Nat) : Nat := if s.ptw.state = .l1Wait then now else g.ptw

def SideAge.next (g : SideAge) (x : Side) (c : Ctx) (a : Access) (p : Port) (walk : Option Xlate)
    (fill : Option TlbEntry) (age : Nat) : SideAge where
  tlb := fun k => if fill.isSome ∧ k = x.repl then age else g.tlb k
  xlate :=
    if (x.tlbReqFire c a p && !x.tlbRspFire c a p || x.tlbDeny c a p && p.reqValid && !x.tlbDenyFire c a p) &&
        !x.xlate.valid then
      ((lookupIdx x.tlb p.req.addr c.asid).map g.tlb).getD 0
    else if walk.isSome then age
    else g.xlate

def Age.next (g : Age) (s : State) (i : In) (now : Nat) : Age where
  ptw := if s.ptw.state = .l1Wait ∧ i.ptwRspValid = true then now else g.ptw
  ifs := g.ifs.next s.ifs i.ctx (ifAcc i) i.ifp (if s.ptw.side then none else walkXlate s i s.ifs.xlate)
    (if s.ptw.side then none else walkFill s i) (g.walk s now)
  dms := g.dms.next s.dms i.ctx (dmAcc i) i.dmp (if s.ptw.side then walkXlate s i s.dms.xlate else none)
    (if s.ptw.side then walkFill s i else none) (g.walk s now)

theorem lookup_eq_idx (tlb : Fin 4 → TlbEntry) (va : Word) (asid : BitVec 9) :
    lookup tlb va asid = (lookupIdx tlb va asid).map tlb := by
  unfold lookup lookupIdx
  split_ifs <;> rfl

theorem tlbMatch_of_idx {tlb : Fin 4 → TlbEntry} {va : Word} {asid : BitVec 9} {k : Fin 4}
    (h : lookupIdx tlb va asid = some k) : tlbMatch (tlb k) va asid = true := by
  unfold lookupIdx at h
  split_ifs at h with h3 h2 h1 h0 <;> simp only [Option.some.injEq] at h <;> subst h
  · exact h3
  · exact h2
  · exact h1
  · exact h0

/-! ## Scope of a fence -/

def samePage (a b : Word) : Bool := a.extractLsb' 12 20 == b.extractLsb' 12 20
def sameSuperpage (a b : Word) : Bool := a.extractLsb' 22 10 == b.extractLsb' 22 10

namespace Sfence

variable (f : Sfence)

/-- The access to `va` in address space `asid`, by a leaf whose global bit is `g`, is in scope. -/
def InScope (va : Word) (asid : BitVec 9) (g : Bool) : Prop :=
  (f.rs1Nz = true → samePage va f.rs1Va = true) ∧ (f.rs2Nz = true → asid = f.rs2Asid ∧ g = false)

/-- Another page than that of the address operand. -/
def OtherPage (va : Word) : Prop := f.rs1Nz = true ∧ samePage va f.rs1Va = false

/-- No access by this entry is in scope. -/
def Spares (e : TlbEntry) : Prop :=
  (f.rs1Nz = true ∧
    (if e.isSp then e.vpn.extractLsb' 10 10 == f.rs1Va.extractLsb' 22 10
      else e.vpn == f.rs1Va.extractLsb' 12 20) = false) ∨
  (f.rs2Nz = true ∧ (e.g = true ∨ (e.asid == f.rs2Asid) = false))

/-- The walker has received nothing for an address in scope. -/
def WalkClear (s : State) (i : In) : Prop :=
  (s.ptw.state = .l1Wait → i.ptwRspValid = true → f.rs1Nz = true ∧ sameSuperpage s.ptw.va f.rs1Va = false) ∧
    (s.ptw.state = .l0Req ∨ s.ptw.state = .l0Wait → f.OtherPage s.ptw.va)

instance (va : Word) (asid : BitVec 9) (g : Bool) : Decidable (f.InScope va asid g) :=
  inferInstanceAs (Decidable ((_ = true → _ = true) ∧ (_ = true → _ = _ ∧ _ = false)))

instance (va : Word) : Decidable (f.OtherPage va) := inferInstanceAs (Decidable (_ = true ∧ _ = false))

instance (s : State) (i : In) : Decidable (f.WalkClear s i) :=
  inferInstanceAs (Decidable ((_ = PtwFsm.l1Wait → _ = true → _ = true ∧ _ = false) ∧
    (_ = PtwFsm.l0Req ∨ _ = PtwFsm.l0Wait → f.OtherPage _)))

end Sfence

variable {f f' : Sfence} {e : TlbEntry} {s : State} {i i' : In} {g : Age} {n now : Nat} {va : Word}

/-! ## What a fence spares -/

theorem samePage_superpage (h : sameSuperpage va f.rs1Va = false) : samePage va f.rs1Va = false := by
  simp only [sameSuperpage, samePage, beq_eq_false_iff_ne, ne_eq] at h ⊢
  intro he
  exact h (by rw [vpn1_eq va, vpn1_eq f.rs1Va, he])

/-- The four operand forms drop every entry by which an access in scope could be decided. -/
theorem Sfence.spares_of_not_hits (hv : f.valid = true) (h : f.hits e = false) : f.Spares e := by
  unfold Sfence.hits at h
  unfold Sfence.Spares
  cases h1 : f.rs1Nz <;> cases h2 : f.rs2Nz <;> simp only [hv, h1, h2] at h ⊢ <;> grind

/-- An access that an entry decides and the fence spares is out of scope. -/
theorem Sfence.Spares.not_inScope {asid : BitVec 9} (h : f.Spares e) (hm : tlbMatch e va asid = true) :
    ¬ f.InScope va asid e.g := by
  rintro ⟨hs1, hs2⟩
  simp only [tlbMatch, Bool.and_eq_true, Bool.or_eq_true, beq_iff_eq] at hm
  obtain ⟨⟨⟨-, hga⟩, hhi⟩, hlo⟩ := hm
  rcases h with ⟨hn, hc⟩ | ⟨hn, hc⟩
  · have hp : va.extractLsb' 12 20 = f.rs1Va.extractLsb' 12 20 := by simpa [samePage] using hs1 hn
    have hp' : va.extractLsb' 22 10 = f.rs1Va.extractLsb' 22 10 := by rw [vpn1_eq va, vpn1_eq f.rs1Va, hp]
    cases hsp : e.isSp
    · simp only [hsp, Bool.false_eq_true, ↓reduceIte, beq_eq_false_iff_ne, ne_eq, false_or] at hc hlo
      rw [vpn1_eq va] at hhi
      rw [vpn0_eq va] at hlo
      exact hc ((vpn_ext hhi hlo).trans hp)
    · simp only [hsp, ↓reduceIte, beq_eq_false_iff_ne, ne_eq] at hc
      exact hc (hhi.trans hp')
  · obtain ⟨ha, hg⟩ := hs2 hn
    rcases hc with hc | hc
    · rw [hg] at hc; simp at hc
    · rw [hg] at hga
      simp only [Bool.false_eq_true, false_or] at hga
      simp [hga, ha] at hc

/-! ## Steps -/

/-- What the walker delivers is younger than cycle `n`, or for another page than the fence's. -/
def Delivers (f : Sfence) (n : Nat) (s : State) (i : In) (g : Age) (now : Nat) : Prop :=
  (s.ptw.state = .l1Wait → i.ptwRspValid = true →
      n < now ∨ f.rs1Nz = true ∧ sameSuperpage s.ptw.va f.rs1Va = false) ∧
    (s.ptw.state = .l0Req ∨ s.ptw.state = .l0Wait → n < g.ptw ∨ f.OtherPage s.ptw.va)

theorem Sfence.WalkClear.delivers (h : f.WalkClear s i) : Delivers f n s i g now :=
  ⟨fun hs hr => Or.inr (h.1 hs hr), fun hs => Or.inr (h.2 hs)⟩

theorem Delivers.walkXlate {x y : Xlate} (h : Delivers f n s i g now) (hw : walkXlate s i x = some y) :
    n < g.walk s now ∨ f.OtherPage y.va := by
  have hva := walkXlate_va hw
  rcases walkXlate_cases hw with ⟨hs, hv, -⟩ | ⟨hs, hv, -⟩ | ⟨hs, -⟩
  · rcases h.1 hs hv with h | ⟨hn, hp⟩
    · exact Or.inl (by simpa [Age.walk, hs] using h)
    · exact Or.inr ⟨hn, by rw [hva]; exact samePage_superpage hp⟩
  · rcases h.1 hs hv with h | ⟨hn, hp⟩
    · exact Or.inl (by simpa [Age.walk, hs] using h)
    · exact Or.inr ⟨hn, by rw [hva]; exact samePage_superpage hp⟩
  · rcases h.2 (Or.inr hs) with h | h
    · exact Or.inl (by simpa [Age.walk, hs] using h)
    · exact Or.inr (by rw [hva]; exact h)

theorem Delivers.walkFill (h : Delivers f n s i g now) (hw : walkFill s i = some e) :
    n < g.walk s now ∨ f.Spares e := by
  rcases walkFill_cases hw with ⟨hs, hv, -, -, -, rfl⟩ | ⟨hs, -, -, rfl⟩
  · rcases h.1 hs hv with h | ⟨hn, hp⟩
    · exact Or.inl (by simpa [Age.walk, hs] using h)
    · refine Or.inr (Or.inl ⟨hn, ?_⟩)
      have hv : (s.ptw.va.extractLsb' 22 10 ++ 0#10).extractLsb' 10 10 = s.ptw.va.extractLsb' 22 10 :=
        (extract_append_hi 10 _ _).trans (by simp)
      simpa [fillEntry, hv, sameSuperpage] using hp
  · rcases h.2 (Or.inr hs) with h | ⟨hn, hp⟩
    · exact Or.inl (by simpa [Age.walk, hs] using h)
    · refine Or.inr (Or.inl ⟨hn, ?_⟩)
      simpa [fillEntry, samePage] using hp

/-- The next step of a walk. -/
theorem Delivers.next (h : Delivers f n s i g now) (hn : n ≤ now) :
    Delivers f n (step s i) i' (g.next s i now) (now + 1) := by
  refine ⟨fun _ _ => Or.inl (by omega), fun hs => ?_⟩
  have hs' : (ptwNext s i).state = .l0Req ∨ (ptwNext s i).state = .l0Wait := hs
  have hva : (step s i).ptw.va = s.ptw.va := by
    have hidle : s.ptw.state ≠ .idle := by
      rcases ptwNext_l0 hs' with ⟨hl, -⟩ | hl | hl <;> simp [hl]
    exact (ptwNext_keep hidle).2.1
  rw [hva]
  rcases ptwNext_l0 hs' with ⟨hl, hr⟩ | hl
  · have hage : (g.next s i now).ptw = now := by simp [Age.next, hl, hr]
    rw [hage]
    rcases h.1 hl hr with h | ⟨h1, hp⟩
    · exact Or.inl h
    · exact Or.inr ⟨h1, samePage_superpage hp⟩
  · have hage : (g.next s i now).ptw = g.ptw := by
      rcases hl with hl | hl <;> simp [Age.next, hl]
    rw [hage]
    exact h.2 hl

/-- Every TLB entry is younger than cycle `n`, or spared by the fence. -/
def TlbFresh (f : Sfence) (n : Nat) (x : Side) (g : SideAge) : Prop :=
  ∀ k, (x.tlb k).valid = true → n < g.tlb k ∨ f.Spares (x.tlb k)

/-- A fault in the walk-result registers is younger than cycle `n`, for another page, or about to be cleared. -/
def FaultFresh (f : Sfence) (n : Nat) (x : Side) (g : SideAge) (leaving : Prop) : Prop :=
  x.xlate.valid = true → x.xlate.fault = true → n < g.xlate ∨ f.OtherPage x.xlate.va ∨ leaving

section

variable {x : Side} {c : Ctx} {a : Access} {p : Port} {ga : SideAge} {walk : Option Xlate}
  {fill : Option TlbEntry} {age : Nat} {leaving leaving' : Prop}

theorem tlbFresh_of_kept
    (h : ∀ k, (x.tlb k).valid = true → f'.hits (x.tlb k) = false → n < ga.tlb k ∨ f.Spares (x.tlb k))
    (hf : ∀ e, fill = some e → n < age ∨ f.Spares e) :
    TlbFresh f n (x.next c a p f' walk fill) (ga.next x c a p walk fill age) := by
  intro k hv
  have htlb : (x.next c a p f' walk fill).tlb k = x.tlbNext f' fill k := rfl
  rw [htlb] at hv ⊢
  rcases tlbNext_valid hv with ⟨e, he, hk, heq⟩ | ⟨hk, hh, heq⟩
  · have hage : (ga.next x c a p walk fill age).tlb k = age := by simp [SideAge.next, he, hk]
    rw [hage, heq]
    exact hf e he
  · have hage : (ga.next x c a p walk fill age).tlb k = ga.tlb k := by simp only [SideAge.next, hk, ↓reduceIte]
    rw [hage, heq]
    rw [heq] at hv
    exact h k hv hh

theorem TlbFresh.next (h : TlbFresh f n x ga) (hf : ∀ e, fill = some e → n < age ∨ f.Spares e) :
    TlbFresh f n (x.next c a p f' walk fill) (ga.next x c a p walk fill age) :=
  tlbFresh_of_kept (fun k hv _ => h k hv) hf

theorem tlbFresh_of_fence (hv : f.valid = true) (hf : ∀ e, fill = some e → n < age ∨ f.Spares e) :
    TlbFresh f n (x.next c a p f walk fill) (ga.next x c a p walk fill age) :=
  tlbFresh_of_kept (fun _ _ hh => Or.inr (f.spares_of_not_hits hv hh)) hf

/-- A fault is loaded by a denial that is not answered at once or by a walk, or kept. -/
theorem xlateNext_fault (hv : (x.xlateNext c a p walk).valid = true) (hf : (x.xlateNext c a p walk).fault = true) :
    (x.tlbDeny c a p = true ∧ p.reqValid = true ∧ p.rspReady = false) ∨
    (x.faultRspDone a p = false ∧ x.xlateNext c a p walk = walk.getD x.xlate ∧
      (ga.next x c a p walk fill age).xlate = if walk.isSome then age else ga.xlate) := by
  by_cases hd : x.tlbDeny c a p = true ∧ p.reqValid = true ∧ p.rspReady = false
  · exact Or.inl hd
  · right
    have hden : (x.tlbDeny c a p && p.reqValid && !x.tlbDenyFire c a p) = false := by
      unfold Side.tlbDenyFire
      cases h1 : x.tlbDeny c a p <;> cases h2 : p.reqValid <;> cases h3 : p.rspReady <;> simp_all
    unfold Side.xlateNext at hv hf ⊢
    unfold SideAge.next
    simp only [hden, Bool.false_and, Bool.or_false, Bool.false_eq_true, ↓reduceIte] at hv hf ⊢
    split at hv
    · simp at hv
    · next hc =>
        simp only [hc, Bool.false_eq_true, ↓reduceIte] at hf ⊢
        split at hf
        · simp at hf
        · next hs =>
            simp only [hs, Bool.false_eq_true, ↓reduceIte, and_self, and_true]
            simp only [Bool.or_eq_true, not_or, Bool.not_eq_true] at hc
            exact hc.1.1.2

theorem FaultFresh.next (h : FaultFresh f n x ga (a.xlate = true ∧ p.rspReady = true ∧ p.reqValid = false))
    (hw : ∀ y, walk = some y → n < age ∨ f.OtherPage y.va)
    (hd : x.tlbDeny c a p = true → p.reqValid = true → p.rspReady = false → leaving) :
    FaultFresh f n (x.next c a p f' walk fill) (ga.next x c a p walk fill age) leaving := by
  intro hv hf
  have hx : (x.next c a p f' walk fill).xlate = x.xlateNext c a p walk := rfl
  rw [hx] at hv hf ⊢
  rcases @xlateNext_fault x c a p ga walk fill age hv hf with ⟨h1, h2, h3⟩ | ⟨hdone, he, hage⟩
  · exact Or.inr (Or.inr (hd h1 h2 h3))
  · rw [he] at hv hf ⊢
    rw [hage]
    cases hwk : walk with
    | some y =>
        rcases hw y hwk with hy | hy
        · exact Or.inl (by simpa using hy)
        · exact Or.inr (Or.inl (by simpa using hy))
    | none =>
        simp only [hwk, Option.getD_none] at hv hf
        rcases h hv hf with hlt | ho | ⟨ha, hr, hq⟩
        · exact Or.inl (by simpa using hlt)
        · exact Or.inr (Or.inl (by simpa using ho))
        · simp [Side.faultRspDone, Side.faultReply, Side.cacheLive, ha, hr, hq, hv, hf] at hdone

end

end QinglongCore.Mmu
