import QinglongCore.Base.InOrder
import QinglongCore.Mmu.Enforcement
import QinglongCore.Mmu.Lemmas.Walks

/-!
# PMP confidentiality

The MMU over two memories that differ in words without read and execute permission. Fetches and data accesses
are checked; the reads of the walker are not.
-/

namespace QinglongCore.Mmu

/-! ## The MMU over a memory -/

abbrev Mem := BitVec 30 → Word

def wordIdx (a : Word) : BitVec 30 := a.extractLsb' 2 30

def Mem.write (mem : Mem) (r : Req) : Mem := fun w =>
  if w = wordIdx r.addr then mergeBytes (mem w) r.wdata r.wmask else mem w

/-- The queues hold what the accepted and unanswered accesses of a port have read. -/
structure World where
  mmu : State
  mem : Mem
  ifq : List Word
  dmq : List Word
  ptwq : List Word

def World.start (mem : Mem) : World := ⟨reset, mem, [], [], []⟩

namespace World

variable (w : World) (i : In)

/-- The ready and valid lines and the faults are those of `i`; the data are what was read. -/
def input : In :=
  { i with
    ifp := { i.ifp with dsRspData := w.ifq.headD i.ifp.dsRspData }
    dmp := { i.dmp with dsRspData := w.dmq.headD i.dmp.dsRspData }
    ptwRspRdata := w.ptwq.headD i.ptwRspRdata }

def ifOut : Out := Mmu.ifOut w.mmu (w.input i)
def dmOut : Out := Mmu.dmOut w.mmu (w.input i)
def ifTaken : Bool := (w.ifOut i).dsReqValid && i.ifp.dsReqReady
def dmTaken : Bool := (w.dmOut i).dsReqValid && i.dmp.dsReqReady
def ptwTaken : Bool := ptwReqValid w.mmu && i.ptwReqReady
def ptwWord : BitVec 30 := wordIdx (ptwReqAddr w.mmu (w.input i))

/-- A read takes its word when it is accepted; a write is performed then, and is answered without data. -/
def next : World where
  mmu := step w.mmu (w.input i)
  mem := if w.dmTaken i && (w.dmOut i).dsReq.wen then w.mem.write (w.dmOut i).dsReq else w.mem
  ifq := InOrder.serve w.ifq (i.ifp.dsRspValid && (w.ifOut i).dsRspReady)
    (if w.ifTaken i then some (w.mem (wordIdx (w.ifOut i).dsReq.addr)) else none)
  dmq := InOrder.serve w.dmq (i.dmp.dsRspValid && (w.dmOut i).dsRspReady)
    (if w.dmTaken i then
      some (if (w.dmOut i).dsReq.wen then 0 else w.mem (wordIdx (w.dmOut i).dsReq.addr)) else none)
  ptwq := InOrder.serve w.ptwq i.ptwRspValid (if w.ptwTaken i then some (w.mem (w.ptwWord i)) else none)

end World

def worlds (mem : Mem) (inp : Nat → In) : Nat → World := Sync.run World.next (World.start mem) inp

/-! ## Words that are kept from S and U -/

def Unprivileged (priv : BitVec 2) : Prop := priv = PRV_U ∨ priv = PRV_S

/-- Neither read nor execute permission in S- and U-mode. -/
def Secret (c : Pmp.Config) (w : BitVec 30) : Prop :=
  ∀ priv, Unprivileged priv →
    Pmp.fault c priv (w ++ 0#2) ⟨true, false, false⟩ = true ∧ Pmp.fault c priv (w ++ 0#2) ⟨false, false, true⟩ = true

/-- The memories differ in secret words only. -/
def AgreeOn (c : Pmp.Config) (m₁ m₂ : Mem) : Prop := ∀ w, ¬ Secret c w → m₁ w = m₂ w

variable {c : Pmp.Config} {m₁ m₂ : Mem} {w₁ w₂ : World} {i : In} {a : Word} {priv : BitVec 2} {r : Req}

theorem fault_word (k : Pmp.Access) : Pmp.fault c priv (wordIdx a ++ 0#2) k = Pmp.fault c priv a k := by
  have h : (wordIdx a ++ 0#2).extractLsb' 2 30 = a.extractLsb' 2 30 := (extract_append_hi 30 _ _).trans (by simp [wordIdx])
  have hm : ∀ n, Pmp.matched c (wordIdx a ++ 0#2) n = Pmp.matched c a n := by
    intro n
    unfold Pmp.matched Pmp.matchTor Pmp.matchNa4 Pmp.matchNapot
    rw [h]
  have hf : Pmp.matched c (wordIdx a ++ 0#2) = Pmp.matched c a := funext hm
  unfold Pmp.fault Pmp.decision
  rw [hf]

theorem not_secret (hp : Unprivileged priv) (h : Pmp.fault c priv a ⟨true, false, false⟩ = false ∨
    Pmp.fault c priv a ⟨false, false, true⟩ = false) : ¬ Secret c (wordIdx a) := by
  intro hs
  obtain ⟨h₁, h₂⟩ := hs priv hp
  rw [fault_word] at h₁ h₂
  rcases h with h | h
  · rw [h] at h₁; simp at h₁
  · rw [h] at h₂; simp at h₂

theorem AgreeOn.write (h : AgreeOn c m₁ m₂) (r : Req) : AgreeOn c (m₁.write r) (m₂.write r) := by
  intro w hw
  unfold Mem.write
  rw [h w hw]

/-! ## Two runs -/

/-- Equal registers and queues over memories that differ in secret words. -/
structure Alike (c : Pmp.Config) (w₁ w₂ : World) : Prop where
  mmu : w₁.mmu = w₂.mmu
  ifq : w₁.ifq = w₂.ifq
  dmq : w₁.dmq = w₂.dmq
  ptwq : w₁.ptwq = w₂.ptwq
  mem : AgreeOn c w₁.mem w₂.mem

/-- The core makes its requests at effective privilege S or U. -/
def RequestsUnprivileged (i : In) : Prop :=
  (i.ifp.reqValid = true → Unprivileged i.ctx.priv) ∧ (i.dmp.reqValid = true → Unprivileged i.ctx.dmEffPriv)

/-- The walker reads no word in which the memories differ. -/
def WalkBlind (w₁ w₂ : World) (i : In) : Prop :=
  w₁.ptwTaken i = true → w₁.mem (w₁.ptwWord i) = w₂.mem (w₁.ptwWord i)

theorem Alike.input (h : Alike c w₁ w₂) (i : In) : w₁.input i = w₂.input i := by
  unfold World.input
  rw [h.ifq, h.dmq, h.ptwq]

theorem Alike.outs (h : Alike c w₁ w₂) (i : In) : w₁.ifOut i = w₂.ifOut i ∧ w₁.dmOut i = w₂.dmOut i := by
  unfold World.ifOut World.dmOut
  rw [h.input i, h.mmu]
  exact ⟨rfl, rfl⟩

theorem Alike.fetched (h : Alike c w₁ w₂) (hc : i.ctx.pmp = c) (hu : RequestsUnprivileged i)
    (ht : w₁.ifTaken i = true) :
    w₁.mem (wordIdx (w₁.ifOut i).dsReq.addr) = w₂.mem (wordIdx (w₁.ifOut i).dsReq.addr) := by
  simp only [World.ifTaken, Bool.and_eq_true] at ht
  obtain ⟨-, -, hq, -⟩ := Side.dsReqValid_elim ht.1
  obtain ⟨hf, -⟩ := Side.allowed_of_dsReqValid ht.1
  have hf' : Pmp.fault c i.ctx.priv (w₁.ifOut i).dsReq.addr ⟨false, false, true⟩ = false := by
    rw [← hc]
    exact hf
  exact h.mem _ (not_secret (hu.1 hq) (Or.inr hf'))

theorem Alike.loaded (h : Alike c w₁ w₂) (hc : i.ctx.pmp = c) (hu : RequestsUnprivileged i)
    (ht : w₁.dmTaken i = true) (hw : (w₁.dmOut i).dsReq.wen = false) :
    w₁.mem (wordIdx (w₁.dmOut i).dsReq.addr) = w₂.mem (wordIdx (w₁.dmOut i).dsReq.addr) := by
  simp only [World.dmTaken, Bool.and_eq_true] at ht
  obtain ⟨-, -, hq, -⟩ := Side.dsReqValid_elim ht.1
  obtain ⟨hf, hwen⟩ := Side.allowed_of_dsReqValid ht.1
  have hwen' : i.dmp.req.wen = false := hwen.symm.trans hw
  have hf' : Pmp.fault c i.ctx.dmEffPriv (w₁.dmOut i).dsReq.addr ⟨true, false, false⟩ = false := by
    rw [← hc]
    have hk : Side.pmpAccess (dmAcc (w₁.input i)) (w₁.input i).dmp = ⟨!i.dmp.req.wen, i.dmp.req.wen, false⟩ := rfl
    rw [hk, hwen'] at hf
    exact hf
  exact h.mem _ (not_secret (hu.2 hq) (Or.inl hf'))

theorem Alike.next (h : Alike c w₁ w₂) (hc : i.ctx.pmp = c) (hu : RequestsUnprivileged i)
    (hb : WalkBlind w₁ w₂ i) : Alike c (w₁.next i) (w₂.next i) := by
  obtain ⟨hif, hdm⟩ := h.outs i
  have hit : w₁.ifTaken i = w₂.ifTaken i := by unfold World.ifTaken; rw [hif]
  have hdt : w₁.dmTaken i = w₂.dmTaken i := by unfold World.dmTaken; rw [hdm]
  have hpt : w₁.ptwTaken i = w₂.ptwTaken i := by unfold World.ptwTaken; rw [h.mmu]
  have hpw : w₁.ptwWord i = w₂.ptwWord i := by unfold World.ptwWord; rw [h.input i, h.mmu]
  constructor
  · unfold World.next
    simp only [h.mmu, h.input i]
  · unfold World.next
    simp only [h.ifq, ← hif, ← hit]
    cases ht : w₁.ifTaken i
    · rfl
    · rw [h.fetched hc hu ht]
  · unfold World.next
    simp only [h.dmq, ← hdm, ← hdt]
    cases ht : w₁.dmTaken i
    · rfl
    · cases hw : (w₁.dmOut i).dsReq.wen
      · rw [h.loaded hc hu ht hw]
      · rfl
  · unfold World.next
    simp only [h.ptwq, ← hpt, ← hpw]
    cases ht : w₁.ptwTaken i
    · rfl
    · rw [hb ht]
  · unfold World.next
    simp only [← hdm, ← hdt]
    split
    · exact h.mem.write _
    · exact h.mem

variable {inp : Nat → In} {t T : Nat}

theorem alike_run (hc : ∀ t, (inp t).ctx.pmp = c) (hu : ∀ t, RequestsUnprivileged (inp t))
    (hm : AgreeOn c m₁ m₂) (hb : ∀ t < T, WalkBlind (worlds m₁ inp t) (worlds m₂ inp t) (inp t)) (ht : t ≤ T) :
    Alike c (worlds m₁ inp t) (worlds m₂ inp t) := by
  induction t with
  | zero => exact ⟨rfl, rfl, rfl, rfl, hm⟩
  | succ t ih => exact (ih (by omega)).next (hc t) (hu t) (hb t (by omega))

/-- As long as the walker reads only words in which the memories agree, the MMU answers the core alike. -/
theorem responses_alike (hc : ∀ t, (inp t).ctx.pmp = c) (hu : ∀ t, RequestsUnprivileged (inp t))
    (hm : AgreeOn c m₁ m₂) (hb : ∀ t < T, WalkBlind (worlds m₁ inp t) (worlds m₂ inp t) (inp t)) (ht : t ≤ T) :
    (worlds m₁ inp t).ifOut (inp t) = (worlds m₂ inp t).ifOut (inp t) ∧
      (worlds m₁ inp t).dmOut (inp t) = (worlds m₂ inp t).dmOut (inp t) :=
  (alike_run hc hu hm hb ht).outs (inp t)

/-! ## A root table that is secret -/

/-- The page at `0x80001000` is kept from S and U, the rest of memory is open. -/
def rootSecret : Pmp.Config where
  cfg := fun n => if n = 0 then 0x18 else if n = 1 then 0x1F else 0
  addr := fun n => if n = 0 then 0x200005FF else 0xFFFFFFFF

/-- A fetch in S-mode that is held; the root table is at `page`. -/
def peekInp (page : BitVec 20) (t : Nat) : In where
  ctx := ⟨0x800#12 ++ page, PRV_S, false, 0, false, false, rootSecret⟩
  sfence := ⟨false, false, 0, false, 0⟩
  ifp := ⟨true, Req.fetch 0x40000ABC, true, true, false, 0, false⟩
  dmp := ⟨false, Req.fetch 0, true, true, false, 0, false⟩
  ptwReqReady := true
  ptwRspValid := decide (t = 3)
  ptwRspRdata := 0
  ptwRspFault := false

/-- A memory with a superpage leaf for the fetched address at `page` and the word `v` at `0x80001400`. -/
def peekMem (page : BitVec 20) (v : Word) : Mem := fun w =>
  if w = wordIdx 0x80001400#32 then v else if w = wordIdx (page ++ 0x400#12) then 0x200000CF#32 else 0#32

theorem peek_secret : Secret rootSecret (wordIdx 0x80001400#32) := by
  rintro priv (rfl | rfl) <;> decide +kernel

theorem peek_agree (page : BitVec 20) (v v' : Word) : AgreeOn rootSecret (peekMem page v) (peekMem page v') := by
  intro w hw
  have hne : w ≠ wordIdx 0x80001400#32 := by
    rintro rfl
    exact hw peek_secret
  simp [peekMem, hne]

theorem peek_unprivileged (page : BitVec 20) (t : Nat) : RequestsUnprivileged (peekInp page t) :=
  ⟨fun _ => Or.inr rfl, fun h => by simp [peekInp] at h⟩

/-- The root table is at an open page. -/
theorem responses_alike_open :
    (worlds (peekMem 0x80002 0) (peekInp 0x80002) 4).ifOut (peekInp 0x80002 4) =
      (worlds (peekMem 0x80002 1) (peekInp 0x80002) 4).ifOut (peekInp 0x80002 4) := by
  have hb : ∀ t < 4, WalkBlind (worlds (peekMem 0x80002 0) (peekInp 0x80002) t)
      (worlds (peekMem 0x80002 1) (peekInp 0x80002) t) (peekInp 0x80002 t) := by
    unfold WalkBlind
    decide +kernel
  have hc : ∀ t, (peekInp 0x80002 t).ctx.pmp = rootSecret := fun _ => rfl
  have h := responses_alike (t := 4) hc (peek_unprivileged 0x80002) (peek_agree 0x80002 0 1) hb le_rfl
  exact h.1

/-- The root table is secret, and the page fault tells its entry. -/
theorem not_responses_alike : ¬ ∀ (c : Pmp.Config) (m₁ m₂ : Mem) (inp : Nat → In),
    Pmp.anyActive c = true → (∀ t, (inp t).ctx.pmp = c) → (∀ t, RequestsUnprivileged (inp t)) →
      AgreeOn c m₁ m₂ → ∀ t, (worlds m₁ inp t).ifOut (inp t) = (worlds m₂ inp t).ifOut (inp t) ∧
        (worlds m₁ inp t).dmOut (inp t) = (worlds m₂ inp t).dmOut (inp t) := by
  intro h
  have h₁ := (h rootSecret (peekMem 0x80001 0) (peekMem 0x80001 0x200000CF) (peekInp 0x80001) (by decide +kernel)
    (fun _ => rfl) (peek_unprivileged _) (peek_agree _ _ _) 4).1
  have h₂ : ((worlds (peekMem 0x80001 0) (peekInp 0x80001) 4).ifOut (peekInp 0x80001 4)).rspPagefault =
      ((worlds (peekMem 0x80001 0x200000CF) (peekInp 0x80001) 4).ifOut (peekInp 0x80001 4)).rspPagefault := by
    rw [h₁]
  exact absurd h₂ (by decide +kernel)

end QinglongCore.Mmu
