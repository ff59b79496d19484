import QinglongCore.Mmu.Enforcement
import QinglongCore.Mmu.Lemmas.Roots

/-!
# Isolation of address spaces

`satp` moves from one root table to another while the tables stay as they are. TLB entries carry an ASID, taken
from `satp` at the end of the walk; the walk-result registers carry a virtual page number only.
-/

namespace QinglongCore.Mmu

open Sv32 (Leaf)

/-! ## Statement -/

def In.port (i : In) (dm : Bool) : Port := if dm then i.dmp else i.ifp
def In.access (i : In) (dm : Bool) : Access := if dm then dmAcc i else ifAcc i

section

variable (inp : Nat → In) (dm : Bool) (t : Nat)

def sideAt : Side := (run inp t).side dm
def branchAt : Branch := (sideAt inp dm t).branch (inp t).ctx ((inp t).access dm) ((inp t).port dm)
def outAt : Out := (sideAt inp dm t).out (inp t).ctx ((inp t).access dm) ((inp t).port dm)

def accepted : Bool := ((inp t).port dm).reqValid && (outAt inp dm t).reqReady
def answered : Bool := (outAt inp dm t).rspValid && ((inp t).port dm).rspReady

/-- The accepted requests of a side that the core has no answer to. -/
def unanswered : Nat → List Nat
  | 0 => []
  | t + 1 =>
      InOrder.serveNow (unanswered t) (answered inp dm t) (if accepted inp dm t then some t else none)

end

/-- Each ASID is used with one root table, and a global mapping is the same below all of them. -/
structure Spaces (mem : Word → Word) (root : BitVec 9 → BitVec 22) (inp : Nat → In) : Prop where
  served : PtwServed inp (holdsUnlessFault mem)
  one_root : ∀ t, (inp t).ctx.satpOn = true → rootPpn (inp t).ctx.satp = root (inp t).ctx.asid
  global : ∀ va l a b, Sv32.leafOf (tables mem) (root a) va = some l → l.pte.g = true →
    Sv32.leafOf (tables mem) (root b) va = some l

/-- `satp` changes when no accepted fetch and no data request is unanswered; a data request is held until it is
accepted. -/
structure Switches (inp : Nat → In) : Prop where
  quiet : ∀ t, (inp (t + 1)).ctx.satp ≠ (inp t).ctx.satp → unanswered inp false (t + 1) = [] ∧
    unanswered inp true (t + 1) = [] ∧ ((inp t).dmp.reqValid = true → accepted inp true t = true)
  held : ∀ t, (inp t).dmp.reqValid = true → accepted inp true t = false →
    (inp (t + 1)).dmp.reqValid = true ∧ (inp (t + 1)).dmp.req = (inp t).dmp.req

/-- A private entry holds the leaf below the root table of its ASID, and a translated request that goes downstream
has the address that the present root table gives. -/
structure Isolated (mem : Word → Word) (root : BitVec 9 → BitVec 22) (inp : Nat → In) (dm : Bool) (t : Nat) :
    Prop where
  tagged : ∀ k, ((sideAt inp dm t).tlb k).valid = true → ((sideAt inp dm t).tlb k).g = false →
    ∀ va, tlbMatch ((sideAt inp dm t).tlb k) va ((sideAt inp dm t).tlb k).asid = true →
      Sv32.leafOf (tables mem) (root ((sideAt inp dm t).tlb k).asid) va = some ((sideAt inp dm t).tlb k).leaf
  translated : ((inp t).access dm).xlate = true → (outAt inp dm t).dsReqValid = true →
    ∃ l, Sv32.leafOf (tables mem) (rootPpn (inp t).ctx.satp) ((inp t).port dm).req.addr = some l ∧
      (outAt inp dm t).dsReq.addr = l.pa ((inp t).port dm).req.addr

/-- The TLB lets a request go whose answer does not come at once: the registers keep its address. -/
def captures (inp : Nat → In) (dm : Bool) (t : Nat) : Bool :=
  let x := sideAt inp dm t
  let c := (inp t).ctx
  let a := (inp t).access dm
  let p := (inp t).port dm
  x.tlbReqFire c a p && !x.tlbRspFire c a p && !x.xlate.valid

/-- The end of a walk, as the side sees it. -/
def walkAt (inp : Nat → In) (dm : Bool) (t : Nat) : Option Xlate :=
  if (run inp t).ptw.side = dm then walkXlate (run inp t) (inp t) (sideAt inp dm t).xlate else none

/-- The `satp` that the walk-result registers of a side were made under. -/
def xlateSatp (inp : Nat → In) (dm : Bool) : Nat → Word
  | 0 => (inp 0).ctx.satp
  | t + 1 =>
      if captures inp dm t then (inp t).ctx.satp
      else if (walkAt inp dm t).isSome then walkSatp inp t
      else xlateSatp inp dm t

/-- A fill is tagged with an ASID of the root table it was walked from, and a request is let through by the
walk-result registers only if they were made for its address, below the present root table. -/
structure Attributed (root : BitVec 9 → BitVec 22) (inp : Nat → In) (t : Nat) : Prop where
  fill : (walkFill (run inp t) (inp t)).isSome = true → rootPpn (walkSatp inp t) = root (inp t).ctx.asid
  forward : ∀ dm, ((inp t).port dm).reqValid = true → branchAt inp dm t = .forward →
    ((inp t).port dm).req.addr = (sideAt inp dm t).xlate.va ∧
      rootPpn (xlateSatp inp dm t) = rootPpn (inp t).ctx.satp

instance (root : BitVec 9 → BitVec 22) (inp : Nat → In) (t : Nat) : Decidable (Attributed root inp t) :=
  decidable_of_iff
    (((walkFill (run inp t) (inp t)).isSome = true → rootPpn (walkSatp inp t) = root (inp t).ctx.asid) ∧
      ∀ dm, ((inp t).port dm).reqValid = true → branchAt inp dm t = .forward →
        ((inp t).port dm).req.addr = (sideAt inp dm t).xlate.va ∧
          rootPpn (xlateSatp inp dm t) = rootPpn (inp t).ctx.satp)
    ⟨fun h => ⟨h.1, h.2⟩, fun h => ⟨h.fill, h.forward⟩⟩

variable {mem : Word → Word} {root : BitVec 9 → BitVec 22} {inp : Nat → In} {dm : Bool} {t : Nat}
  {va : Word} {e : TlbEntry} {x : Side} {c : Ctx} {a : Access} {p : Port} {w : Option Xlate}

/-! ## One step of a side -/

def fillAt (inp : Nat → In) (dm : Bool) (t : Nat) : Option TlbEntry :=
  if (run inp t).ptw.side = dm then walkFill (run inp t) (inp t) else none

theorem sideAt_succ : sideAt inp dm (t + 1) = (sideAt inp dm t).next (inp t).ctx ((inp t).access dm)
    ((inp t).port dm) (inp t).sfence (walkAt inp dm t) (fillAt inp dm t) := by
  have hrun : run inp (t + 1) = step (run inp t) (inp t) := rfl
  unfold walkAt fillAt sideAt
  rw [hrun]
  cases dm <;> cases hs : (run inp t).ptw.side <;> simp [step, State.side, In.access, In.port, hs]

/-- An address in the walk-result registers is that of a request which the TLB let go, of a walk, or the old one. -/
theorem xlateNext_pa (hv : (x.xlateNext c a p w).valid = true) (hf : (x.xlateNext c a p w).fault = false) :
    ((x.tlbReqFire c a p && !x.tlbRspFire c a p && !x.xlate.valid) = true ∧
      x.xlateNext c a p w = ⟨true, false, x.tlbPa c p, p.req.addr⟩) ∨
    ((x.tlbReqFire c a p && !x.tlbRspFire c a p && !x.xlate.valid) = false ∧
      x.xlateNext c a p w = w.getD x.xlate) := by
  unfold Side.xlateNext at hv hf ⊢
  cases hdone : x.forwardRspDone a p || x.faultRspDone a p || x.tlbRspFire c a p || x.tlbDenyFire c a p
  · cases hdeny : x.tlbDeny c a p && p.reqValid && !x.tlbDenyFire c a p && !x.xlate.valid
    · cases hcap : x.tlbReqFire c a p && !x.tlbRspFire c a p && !x.xlate.valid
      · simp only [Bool.false_eq_true, ↓reduceIte]
        exact Or.inr ⟨trivial, trivial⟩
      · simp only [Bool.false_eq_true, ↓reduceIte]
        exact Or.inl ⟨trivial, trivial⟩
    · simp only [hdone, hdeny, Bool.false_eq_true, ↓reduceIte] at hf
      simp at hf
  · simp only [hdone, ↓reduceIte] at hv
    simp at hv

theorem satpOn_of_xlate (h : ((inp t).access dm).xlate = true) : (inp t).ctx.satpOn = true := by
  cases dm
  · simp only [In.access, Bool.false_eq_true, ↓reduceIte, ifAcc, ifAccess, Ctx.xlateIf, Bool.and_eq_true] at h
    exact h.1
  · simp only [In.access, ↓reduceIte, dmAcc, dmAccess, Ctx.xlateDm, Bool.and_eq_true] at h
    exact h.1

theorem tlbGo_elim (h : x.tlbGo c a p = true) : a.xlate = true ∧ ∃ e, x.hit c p = some e := by
  unfold Side.tlbGo at h
  cases hh : x.hit c p with
  | none => simp [hh] at h
  | some e =>
      simp only [hh, Bool.and_eq_true] at h
      exact ⟨h.1, e, rfl⟩

/-! ## The invariant -/

/-- What is kept of each side: an entry belongs to the root table of its ASID, an address in the walk-result
registers to the root table they were made under. -/
structure Rooted (mem : Word → Word) (root : BitVec 9 → BitVec 22) (x : Side) (satp : Word) : Prop where
  tlb : ∀ k, (x.tlb k).Leads mem (root (x.tlb k).asid)
  xlate : x.xlate.valid = true → x.xlate.fault = false →
    ∃ l, Sv32.leafOf (tables mem) (rootPpn satp) x.xlate.va = some l ∧ x.xlate.pa = l.pa x.xlate.va

/-- Below the present root table a hit gives the leaf of the address, for a private entry by its ASID. -/
theorem leafOf_of_hit (hsp : Spaces mem root inp) (hx : ∀ k, (x.tlb k).Leads mem (root (x.tlb k).asid))
    (hon : (inp t).ctx.satpOn = true) (hh : x.hit (inp t).ctx p = some e) :
    Sv32.leafOf (tables mem) (rootPpn (inp t).ctx.satp) p.req.addr = some e.leaf := by
  obtain ⟨k, hk, hm⟩ := lookup_some hh
  have hl := hx k
  rw [hk] at hl
  have hleaf := (hl _ _ hm).1
  rw [hsp.one_root t hon]
  cases hg : e.g
  · simp only [tlbMatch, hg, Bool.false_or, Bool.and_eq_true, beq_iff_eq] at hm
    rw [← hm.1.1.2]
    exact hleaf
  · exact hsp.global _ _ _ _ hleaf hg

theorem tlbNext_leads {f : Sfence} {fill : Option TlbEntry} (h : ∀ k, (x.tlb k).Leads mem (root (x.tlb k).asid))
    (hf : ∀ e, fill = some e → e.Leads mem (root e.asid)) (k : Fin 4) :
    (x.tlbNext f fill k).Leads mem (root (x.tlbNext f fill k).asid) := by
  intro va asid hm
  have hv : (x.tlbNext f fill k).valid = true := by
    simp only [tlbMatch, Bool.and_eq_true] at hm
    exact hm.1.1.1
  rcases tlbNext_valid hv with ⟨e, he, -, heq⟩ | ⟨-, -, heq⟩
  · rw [heq] at hm ⊢
    exact hf e he va asid hm
  · rw [heq] at hm ⊢
    exact h k va asid hm

theorem rooted_step (hsp : Spaces mem root inp)
    (hfill : (walkFill (run inp t) (inp t)).isSome = true → rootPpn (walkSatp inp t) = root (inp t).ctx.asid)
    (h : Rooted mem root (sideAt inp dm t) (xlateSatp inp dm t)) :
    Rooted mem root (sideAt inp dm (t + 1)) (xlateSatp inp dm (t + 1)) := by
  rw [sideAt_succ]
  constructor
  · refine tlbNext_leads h.tlb fun e he => ?_
    unfold fillAt at he
    split at he
    · have hl := walkFill_leads hsp.served he
      rw [hfill (by simp [he]), ← walkFill_asid he] at hl
      exact hl
    · simp at he
  · intro hv hf
    have hx : ((sideAt inp dm t).next (inp t).ctx ((inp t).access dm) ((inp t).port dm) (inp t).sfence
        (walkAt inp dm t) (fillAt inp dm t)).xlate =
          (sideAt inp dm t).xlateNext (inp t).ctx ((inp t).access dm) ((inp t).port dm) (walkAt inp dm t) := rfl
    rw [hx] at hv hf ⊢
    rcases xlateNext_pa hv hf with ⟨hcap, he⟩ | ⟨hcap, he⟩
    · have hsatp : xlateSatp inp dm (t + 1) = (inp t).ctx.satp := by simp [xlateSatp, captures, hcap]
      have hgo : (sideAt inp dm t).tlbGo (inp t).ctx ((inp t).access dm) ((inp t).port dm) = true := by
        simp only [Side.tlbReqFire, Bool.and_eq_true] at hcap
        exact hcap.1.1.1.1
      obtain ⟨ha, e, hh⟩ := tlbGo_elim hgo
      rw [he, hsatp]
      refine ⟨e.leaf, leafOf_of_hit hsp h.tlb (satpOn_of_xlate ha) hh, ?_⟩
      simp only
      rw [Side.tlbPa_of_hit hh, tlb_pa_eq]
    · have hcap' : captures inp dm t = false := hcap
      rw [he] at hv hf ⊢
      cases hw : walkAt inp dm t with
      | none =>
          have hsatp : xlateSatp inp dm (t + 1) = xlateSatp inp dm t := by simp [xlateSatp, hcap', hw]
          rw [hw] at hv hf
          rw [hsatp]
          exact h.xlate hv hf
      | some y =>
          have hsatp : xlateSatp inp dm (t + 1) = walkSatp inp t := by simp [xlateSatp, hcap', hw]
          rw [hw] at hf
          rw [hsatp]
          unfold walkAt at hw
          split at hw
          · exact walkXlate_pa hsp.served hw hf
          · simp at hw

theorem rooted_run (hsp : Spaces mem root inp) (hc : ∀ u, u < t → Attributed root inp u) :
    Rooted mem root (sideAt inp dm t) (xlateSatp inp dm t) := by
  induction t with
  | zero =>
      constructor
      · intro k va asid hm
        cases dm <;> simp [sideAt, State.side, run, reset, Side.reset, TlbEntry.zero, tlbMatch] at hm
      · intro hv
        cases dm <;> simp [sideAt, State.side, run, reset, Side.reset] at hv
  | succ t ih =>
      have hold := ih fun u hu => hc u (by omega)
      exact rooted_step hsp (hc t (by omega)).fill hold

/-- As long as fills and forwarded requests are attributed to the right address space, the spaces are isolated. -/
theorem isolated_run (hsp : Spaces mem root inp) (hc : ∀ u, u ≤ t → Attributed root inp u) (dm : Bool) :
    Isolated mem root inp dm t := by
  have hx : Rooted mem root (sideAt inp dm t) (xlateSatp inp dm t) := rooted_run hsp fun u hu => hc u (by omega)
  constructor
  · exact fun k _ _ va hm => (hx.tlb k va _ hm).1
  · intro ha hds
    obtain ⟨-, hpass, hq, hreq⟩ := Side.dsReqValid_elim hds
    have haddr : (outAt inp dm t).dsReq.addr = _ := congrArg Req.addr hreq
    rw [haddr, Side.pass_addr hpass]
    cases hb : (sideAt inp dm t).branch (inp t).ctx ((inp t).access dm) ((inp t).port dm) with
    | tlbGo =>
        obtain ⟨-, e, hh⟩ := tlbGo_elim (Side.tlbGo_of_branch hb)
        refine ⟨e.leaf, leafOf_of_hit hsp hx.tlb (satpOn_of_xlate ha) hh, ?_⟩
        simp only
        rw [Side.tlbPa_of_hit hh, tlb_pa_eq]
    | forward =>
        obtain ⟨hva, hroot⟩ := (hc t le_rfl).forward dm hq hb
        have hlive := Side.forward_of_branch hb
        simp only [Side.forward, Side.cacheLive, Bool.and_eq_true, Bool.not_eq_true'] at hlive
        obtain ⟨l, hl, hpa⟩ := hx.xlate hlive.1.2.1 hlive.2
        rw [hva, ← hroot]
        exact ⟨l, hl, hpa⟩
    | bare =>
        rw [Side.branch_bare_iff.mp hb] at ha
        simp at ha
    | tlbDeny => simp [hb, Branch.passes] at hpass
    | faultReply => simp [hb, Branch.passes] at hpass
    | wait => simp [hb, Branch.passes] at hpass

/-! ## Two address spaces -/

/-- Superpages only: the entry for the fetched page below the first root table maps `0x80000000`, any other entry
`0x90000000`. -/
def pairMem (x : Word) : Word := if x = 0x80000400#32 then 0x200000CF else 0x240000CF

def pairRoot (asid : BitVec 9) : BitVec 22 := if asid = 1 then 0x80000 else 0x80001

/-- ASID 1 with the first root table before cycle `n`, ASID 2 with the second from then on. -/
def pairSatp (n t : Nat) : Word := if t < n then 0x80480000 else 0x80880001

theorem pair_leafOf (ppn : BitVec 22) (va : Word) : Sv32.leafOf (tables pairMem) ppn va =
    some ⟨true, Sv32.Pte.ofWord (pairMem (Sv32.entryAddr ppn (Sv32.vpn1 va)))⟩ := by
  unfold Sv32.leafOf tables pairMem
  split_ifs <;> rfl

theorem pair_spaces (n : Nat) (hs : ∀ t, (inp t).ctx.satp = pairSatp n t)
    (hb : PtwServed inp (holdsUnlessFault pairMem)) : Spaces pairMem pairRoot inp := by
  refine ⟨hb, fun t _ => ?_, fun va l a b hl hg => ?_⟩
  · unfold Ctx.asid
    rw [hs t]
    unfold pairSatp
    split <;> rfl
  · rw [pair_leafOf, Option.some.injEq] at hl
    rw [← hl] at hg
    unfold pairMem at hg
    split at hg <;> simp [Sv32.Pte.ofWord] at hg

/-- A page fetched in one address space, and after a switch in the other. -/
def switchInp (t : Nat) : In where
  ctx := ⟨pairSatp 6 t, PRV_S, false, 0, false, false, ⟨fun _ => 0, fun _ => 0⟩⟩
  sfence := ⟨false, false, 0, false, 0⟩
  ifp := ⟨decide (t ≠ 5), Req.fetch 0x40000ABC, true, true, decide (t = 5), 0, false⟩
  dmp := ⟨false, Req.fetch 0, true, true, false, 0, false⟩
  ptwReqReady := true
  ptwRspValid := decide (t = 3 ∨ t = 9)
  ptwRspRdata := if t = 3 then 0x200000CF else 0x240000CF
  ptwRspFault := false

theorem isolated_switch : Isolated pairMem pairRoot switchInp false 10 := by
  have hb : PtwServed switchInp (holdsUnlessFault pairMem) := by
    intro t ht
    have ht' : t = 3 ∨ t = 9 := by simpa [ptwReturned, switchInp] using ht
    rcases ht' with rfl | rfl
    · exact ⟨1, [], by decide +kernel, fun _ => by decide +kernel⟩
    · exact ⟨7, [], by decide +kernel, fun _ => by decide +kernel⟩
  have hc : ∀ u, u < 11 → Attributed pairRoot switchInp u := by decide +kernel
  exact isolated_run (pair_spaces 6 (fun _ => rfl) hb) (fun u hu => hc u (by omega)) false

/-- A fetch that is not accepted; `satp` is switched in the cycle after its walk. -/
def leakInp (t : Nat) : In where
  ctx := ⟨pairSatp 4 t, PRV_S, false, 0, false, false, ⟨fun _ => 0, fun _ => 0⟩⟩
  sfence := ⟨false, false, 0, false, 0⟩
  ifp := ⟨decide (t ≤ 4), Req.fetch 0x40000ABC, true, true, false, 0, false⟩
  dmp := ⟨false, Req.fetch 0, true, true, false, 0, false⟩
  ptwReqReady := true
  ptwRspValid := decide (t = 3)
  ptwRspRdata := 0x200000CF
  ptwRspFault := false

/-- The walk-result registers do not name the address space, and the fetch goes to the page of the old one. -/
theorem not_isolated : ¬ ∀ (mem : Word → Word) (root : BitVec 9 → BitVec 22) (inp : Nat → In),
    Spaces mem root inp → Switches inp → ∀ t dm, Isolated mem root inp dm t := by
  intro h
  have hb : PtwServed leakInp (holdsUnlessFault pairMem) := by
    intro t ht
    have ht3 : t = 3 := by simpa [ptwReturned, leakInp] using ht
    rw [ht3]
    exact ⟨1, [], by decide +kernel, fun _ => by decide +kernel⟩
  have hsw : Switches leakInp := by
    constructor
    · intro t hne
      have ht3 : t = 3 := by
        by_contra ht3
        have hlt : t + 1 < 4 ↔ t < 4 := by omega
        exact hne (by simp [leakInp, pairSatp, hlt])
      rw [ht3]
      exact ⟨by decide +kernel, by decide +kernel, fun hq => by simp [leakInp] at hq⟩
    · intro t hq
      simp [leakInp] at hq
  obtain ⟨l, hl, hpa⟩ := (h pairMem pairRoot leakInp (pair_spaces 4 (fun _ => rfl) hb) hsw 4 false).translated
    (by decide +kernel) (by decide +kernel)
  rw [pair_leafOf, Option.some.injEq] at hl
  rw [← hl] at hpa
  exact absurd hpa (by decide +kernel)

end QinglongCore.Mmu
