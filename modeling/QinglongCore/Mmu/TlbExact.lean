import QinglongCore.Mmu.Enforcement
import QinglongCore.Mmu.Lemmas.Roots

/-!
# A TLB hit against a fresh walk

With constant page tables and a constant `satp` each entry holds the leaf of every page it matches, whatever
filled it and whatever was filled or dropped in between.
-/

namespace QinglongCore.Mmu

open Sv32 (Mode Kind Leaf)

/-- The entry holds the leaf of every page it matches. -/
def TlbEntry.Backs (e : TlbEntry) (mem : Word → Word) (satp : Word) : Prop :=
  ∀ va, tlbMatch e va (satp.extractLsb' 22 9) = true →
    Sv32.leafOf (tables mem) (rootPpn satp) va = some e.leaf ∧ e.pte.invalid = false

structure Exact (mem : Word → Word) (satp : Word) (s : State) : Prop where
  ptw : PtwExact mem satp s.ptw
  ifs : ∀ k, (s.ifs.tlb k).Backs mem satp
  dms : ∀ k, (s.dms.tlb k).Backs mem satp

/-- The outcome of a side whose TLB hits is that of the translation `r`; the PMP may still deny the request. -/
def Side.Decides (x : Side) (c : Ctx) (a : Access) (p : Port) : Option Word → Prop
  | some pa => x.branch c a p = .tlbGo ∧ (x.pmpKill c a p = false →
      (x.out c a p).dsReqValid = p.reqValid ∧ (x.out c a p).dsReq.addr = pa ∧ (x.out c a p).rspPagefault = false)
  | none => x.branch c a p = .tlbDeny ∧ (x.pmpKill c a p = false →
      (x.out c a p).dsReqValid = false ∧ (x.out c a p).rspValid = true ∧ (x.out c a p).rspPagefault = true)

variable {mem : Word → Word} {satp va d : Word} {e : TlbEntry} {s : State} {i : In} {m : Mode} {k : Kind}

/-! ## The invariant -/

variable {inp : Nat → In} {t : Nat}

theorem TlbEntry.Leads.backs (h : e.Leads mem (rootPpn satp)) : e.Backs mem satp := fun va hm => h va _ hm

theorem tlbNext_backs {x : Side} {f : Sfence} {fill : Option TlbEntry} (h : ∀ k, (x.tlb k).Backs mem satp)
    (hf : ∀ e, fill = some e → e.Backs mem satp) (k : Fin 4) : (x.tlbNext f fill k).Backs mem satp := by
  intro va hm
  have hv : (x.tlbNext f fill k).valid = true := by
    simp only [tlbMatch, Bool.and_eq_true] at hm
    exact hm.1.1.1
  rcases tlbNext_valid hv with ⟨e, he, -, heq⟩ | ⟨-, -, heq⟩
  · rw [heq] at hm ⊢
    exact hf e he va hm
  · rw [heq] at hm ⊢
    exact h k va hm

theorem exact_run (hb : PtwServed inp (holdsUnlessFault mem)) (hs : ∀ t, (inp t).ctx.satp = satp) (t : Nat) :
    Exact mem satp (run inp t) := by
  have hptw : ∀ t, PtwExact mem satp (run inp t).ptw := by
    intro t
    rw [← walkSatp_const hs t]
    exact ptwExact_run hb t
  induction t with
  | zero =>
      refine ⟨hptw 0, fun k va hm => ?_, fun k va hm => ?_⟩
      · simp [run, reset, Side.reset, TlbEntry.zero, tlbMatch] at hm
      · simp [run, reset, Side.reset, TlbEntry.zero, tlbMatch] at hm
  | succ t ih =>
      have hfill : ∀ e, walkFill (run inp t) (inp t) = some e → e.Backs mem satp := by
        intro e he
        have hl := walkFill_leads hb he
        rw [walkSatp_const hs t] at hl
        exact hl.backs
      refine ⟨hptw (t + 1), fun k => ?_, fun k => ?_⟩
      · refine tlbNext_backs ih.ifs (fun e he => ?_) k
        split at he
        · simp at he
        · exact hfill e he
      · refine tlbNext_backs ih.dms (fun e he => ?_) k
        split at he
        · exact hfill e he
        · simp at he

/-! ## Hits -/

theorem decides_of_hit {x : Side} {c : Ctx} {a : Access} {p : Port} (ha : a.xlate = true)
    (hp : a.effPriv = m.bits) (hk : a.isFetch = Kind.isFetch k) (hw : p.req.wen = Kind.isStore k)
    (hsatp : c.satp = satp) (hx : ∀ k, (x.tlb k).Backs mem satp) (hh : x.hit c p = some e) :
    x.Decides c a p (Sv32.translate (tables mem) (rootPpn satp) m k c.sum c.mxr p.req.addr) := by
  obtain ⟨n, hn, hm⟩ := lookup_some hh
  have hb := hx n
  rw [hn] at hb
  obtain ⟨hleaf, hinv⟩ := hb p.req.addr (by rw [← hsatp]; exact hm)
  have hperm : e.permOk c a p.req.wen = Sv32.permitted m k c.sum c.mxr e.pte := by
    unfold TlbEntry.permOk
    rw [hp, hk, hw]
    exact permOk_eq e.pte hinv
  have hbr := Side.branch_of_hit ha hh
  rw [hperm] at hbr
  unfold Sv32.translate
  rw [hleaf]
  have hpte : e.leaf.pte = e.pte := rfl
  cases hok : Sv32.permitted m k c.sum c.mxr e.pte
  · have hdeny : x.branch c a p = .tlbDeny := by simpa [hok] using hbr
    have hnone : (if Sv32.permitted m k c.sum c.mxr e.leaf.pte = true then some (e.leaf.pa p.req.addr) else none) =
        none := by
      rw [hpte, hok]
      rfl
    simp only [hnone]
    refine ⟨hdeny, fun hkill => ?_⟩
    obtain ⟨-, h₁, -, h₂, h₃⟩ := Side.out_of_refuses hkill (by rw [hdeny]; rfl : (x.branch c a p).refuses = true)
    exact ⟨h₃, h₁, h₂⟩
  · have hgo : x.branch c a p = .tlbGo := by simpa [hok] using hbr
    have hsome : (if Sv32.permitted m k c.sum c.mxr e.leaf.pte = true then some (e.leaf.pa p.req.addr) else none) =
        some (e.pa p.req.addr) := by
      rw [hpte, hok, tlb_pa_eq]
      rfl
    simp only [hsome]
    refine ⟨hgo, fun hkill => ?_⟩
    have hpass : (x.branch c a p).passes = true := by rw [hgo]; rfl
    obtain ⟨-, -, -, -, h₁, h₂⟩ := Side.out_of_passes hkill hpass
    refine ⟨h₂, ?_, h₁⟩
    have haddr := Side.pass_addr hpass
    rw [hgo] at haddr
    simp only [Side.tlbPa_of_hit hh] at haddr
    rw [← haddr]
    simp [Side.out, hkill]

/-- With constant page tables and a constant `satp` a request that hits the TLB is decided as a fresh walk of its
address would decide it in the present context. -/
theorem hit_eq_walk (hb : PtwServed inp (holdsUnlessFault mem)) (hs : ∀ t, (inp t).ctx.satp = satp)
    (t : Nat) (m : Mode) :
    (∀ va e, (inp t).ifp.req = Req.fetch va → (inp t).ctx.xlateIf = true → (inp t).ctx.priv = m.bits →
      (run inp t).ifs.hit (inp t).ctx (inp t).ifp = some e →
        (run inp t).ifs.Decides (inp t).ctx (ifAcc (inp t)) (inp t).ifp
          (Sv32.translate (tables mem) (rootPpn satp) m .fetch (inp t).ctx.sum (inp t).ctx.mxr va)) ∧
    (∀ e, (inp t).ctx.xlateDm = true → (inp t).ctx.dmEffPriv = m.bits →
      (run inp t).dms.hit (inp t).ctx (inp t).dmp = some e →
        (run inp t).dms.Decides (inp t).ctx (dmAcc (inp t)) (inp t).dmp
          (Sv32.translate (tables mem) (rootPpn satp) m (if (inp t).dmp.req.wen then .store else .load)
            (inp t).ctx.sum (inp t).ctx.mxr (inp t).dmp.req.addr)) := by
  have hx := exact_run hb hs t
  constructor
  · intro va e hreq hxl hp hh
    have hva : (inp t).ifp.req.addr = va := by rw [hreq]; rfl
    have hwen : (inp t).ifp.req.wen = Kind.isStore .fetch := by rw [hreq]; rfl
    have hk : (ifAcc (inp t)).isFetch = Kind.isFetch .fetch := rfl
    rw [← hva]
    exact decides_of_hit hxl hp hk hwen (hs t) hx.ifs hh
  · intro e hxl hp hh
    have hwen : (inp t).dmp.req.wen = Kind.isStore (if (inp t).dmp.req.wen then .store else .load) := by
      cases (inp t).dmp.req.wen <;> rfl
    have hk : (dmAcc (inp t)).isFetch = Kind.isFetch (if (inp t).dmp.req.wen then .store else .load) := by
      cases (inp t).dmp.req.wen <;> rfl
    exact decides_of_hit hxl hp hk hwen (hs t) hx.dms hh

/-! ## The page of a superpage, fetched again -/

/-- The fetch that fills the superpage entry, and one of another page of it. -/
def againInp (t : Nat) : In :=
  { spInp t with
    ifp :=
      { (spInp t).ifp with
        reqValid := decide (t = 0 ∨ t = 9), req := Req.fetch (if t < 9 then 0x40000ABC else 0x40123004) } }

theorem hit_superpage : (run againInp 9).ifs.Decides (againInp 9).ctx (ifAcc (againInp 9)) (againInp 9).ifp
    (some 0x80123004#32) := by
  have hb : PtwServed againInp (holdsUnlessFault fun _ => 0x200000CF#32) := by
    intro t ht
    have ht3 : t = 3 := by simpa [ptwReturned, againInp, spInp] using ht
    exact ⟨1, [], by rw [ht3]; decide +kernel, fun _ => rfl⟩
  have hsatp : ∀ t, (againInp t).ctx.satp = 0x80080000#32 := fun _ => rfl
  have h := (hit_eq_walk hb hsatp 9 .supervisor).1 0x40123004#32 ((run againInp 9).ifs.tlb 0) rfl rfl rfl
    (by decide +kernel)
  have hout : Sv32.translate (tables fun _ => 0x200000CF#32) (rootPpn 0x80080000#32) .supervisor .fetch
      (againInp 9).ctx.sum (againInp 9).ctx.mxr 0x40123004#32 = some 0x80123004#32 := by decide
  rw [hout] at h
  exact h

end QinglongCore.Mmu
