import Mathlib.Tactic.Common
import QinglongCore.Base.Events
import QinglongCore.Base.Sync
import QinglongCore.Rtl.Axi4Master

/-!
# The handshake of the AXI master

A request that is accepted owes the bus a fixed set of handshakes. Along a run the handshakes seen since the
acceptance are what the state of the master says they are, whatever the slave does.
-/

namespace QinglongCore.Axi4Master

/-- What comes into the master in a cycle: the native request and the lines of the slave. -/
structure In where
  req : Req
  lines : Lines

def run (inp : Nat → In) : Nat → State := Sync.run (fun s i => step s i.req i.lines) reset inp

theorem run_succ (inp : Nat → In) (t : Nat) :
    run inp (t + 1) = step (run inp t) (inp t).req (inp t).lines := rfl

/-! ## Steps -/

section
variable (s : State) (r : Req) (l : Lines)

/-- The registers that every cycle moves on. -/
def settle : State :=
  { s with
    rspValid := false, rspFault := false
    cooldown := if s.cooldown != 0 then s.cooldown - 1 else s.cooldown }

def latch : State :=
  { settle s with
    addr := r.addr, wdata := r.wdata, wmask := r.wmask, awSent := false, wSent := false
    fsm := if r.wen then .write else .read }

def answer (rdata : Word) (resp : BitVec 2) : State :=
  { settle s with rspValid := true, rspRdata := rdata, rspFault := resp != 0, fsm := .idle, cooldown := 8 }

theorem step_idle (h : s.fsm = .idle) :
    step s r l = if r.valid && reqReady s then latch s r else settle s := by
  cases s
  cases h
  rfl

theorem step_write (h : s.fsm = .write) :
    step s r l =
      { settle s with
        awSent := awDone s l, wSent := wDone s l
        fsm := if awDone s l && wDone s l then .writeB else .write } := by
  cases s
  cases h
  rfl

theorem step_writeB (h : s.fsm = .writeB) :
    step s r l = if l.bvalid then answer s 0 l.bresp else settle s := by
  cases s
  cases h
  rfl

theorem step_read (h : s.fsm = .read) :
    step s r l = if l.arready then { settle s with fsm := .readR } else settle s := by
  cases s
  cases h
  rfl

theorem step_readR (h : s.fsm = .readR) :
    step s r l = if l.rvalid then answer s l.rdata l.rresp else settle s := by
  cases s
  cases h
  rfl

end

/-- The response pulse and the cooldown belong to an idle master. -/
def Rests (s : State) : Prop := s.rspValid = true ∨ s.cooldown ≠ 0 → s.fsm = .idle

theorem rests_step (s : State) (r : Req) (l : Lines) (h : Rests s) : Rests (step s r l) := by
  unfold Rests at h ⊢
  cases hf : s.fsm
  case idle =>
    rw [step_idle s r l hf]
    cases ha : r.valid && reqReady s
    · intro _
      exact hf
    · have hc : s.cooldown = 0 := by
        simp only [reqReady, Bool.and_eq_true, beq_iff_eq] at ha
        exact ha.2.2
      simp [latch, settle, hc]
  case write =>
    have hc : ¬ (s.rspValid = true ∨ s.cooldown ≠ 0) := fun hr => by simp [h hr] at hf
    simp only [step_write s r l hf, settle]
    simp_all
  case writeB =>
    have hc : ¬ (s.rspValid = true ∨ s.cooldown ≠ 0) := fun hr => by simp [h hr] at hf
    rw [step_writeB s r l hf]
    cases l.bvalid <;> simp_all [answer, settle]
  case read =>
    have hc : ¬ (s.rspValid = true ∨ s.cooldown ≠ 0) := fun hr => by simp [h hr] at hf
    rw [step_read s r l hf]
    cases l.arready <;> simp_all [settle]
  case readR =>
    have hc : ¬ (s.rspValid = true ∨ s.cooldown ≠ 0) := fun hr => by simp [h hr] at hf
    rw [step_readR s r l hf]
    cases l.rvalid <;> simp_all [answer, settle]

/-! ## Handshakes -/

/-- Handshakes on the five channels, each counted. -/
structure Tally where
  aw : Nat
  w : Nat
  b : Nat
  ar : Nat
  r : Nat
  deriving DecidableEq

def Tally.add (x y : Tally) : Tally where
  aw := x.aw + y.aw
  w := x.w + y.w
  b := x.b + y.b
  ar := x.ar + y.ar
  r := x.r + y.r

def Tally.Within (x y : Tally) : Prop := x.aw ≤ y.aw ∧ x.w ≤ y.w ∧ x.b ≤ y.b ∧ x.ar ≤ y.ar ∧ x.r ≤ y.r

/-- The handshakes that one transfer consists of. -/
def transfer (wen : Bool) : Tally :=
  if wen then { aw := 1, w := 1, b := 1, ar := 0, r := 0 } else { aw := 0, w := 0, b := 0, ar := 1, r := 1 }

section
variable (s : State) (r : Req) (l : Lines)

/-- The handshakes of this cycle. -/
def fires : Tally where
  aw := (awvalid s && l.awready).toNat
  w := (wvalid s && l.wready).toNat
  b := (bready s && l.bvalid).toNat
  ar := (arvalid s && l.arready).toNat
  r := (rready s && l.rvalid).toNat

/-- The handshakes that are behind a busy master. -/
def made : Tally :=
  match s.fsm with
  | .write => { aw := s.awSent.toNat, w := s.wSent.toNat, b := 0, ar := 0, r := 0 }
  | .writeB => { aw := 1, w := 1, b := 0, ar := 0, r := 0 }
  | .readR => { aw := 0, w := 0, b := 0, ar := 1, r := 0 }
  | _ => { aw := 0, w := 0, b := 0, ar := 0, r := 0 }

def writing : Bool :=
  match s.fsm with
  | .write | .writeB => true
  | _ => false

variable {s r l}

theorem fires_write (h : s.fsm = .write) :
    fires s l =
      { aw := (!s.awSent && l.awready).toNat, w := (!s.wSent && l.wready).toNat, b := 0, ar := 0, r := 0 } := by
  cases s
  cases h
  rfl

theorem fires_writeB (h : s.fsm = .writeB) : fires s l = { aw := 0, w := 0, b := l.bvalid.toNat, ar := 0, r := 0 } := by
  cases s
  cases h
  rfl

theorem fires_read (h : s.fsm = .read) : fires s l = { aw := 0, w := 0, b := 0, ar := l.arready.toNat, r := 0 } := by
  cases s
  cases h
  rfl

theorem fires_readR (h : s.fsm = .readR) : fires s l = { aw := 0, w := 0, b := 0, ar := 0, r := l.rvalid.toNat } := by
  cases s
  cases h
  rfl

/-- A step of a busy master makes the handshakes of its cycle, and leaves the latched request alone. -/
theorem busy_step (hb : s.fsm ≠ .idle) (hn : (step s r l).fsm ≠ .idle) :
    made (step s r l) = (made s).add (fires s l) ∧ writing (step s r l) = writing s ∧
      (step s r l).addr = s.addr ∧ (step s r l).wdata = s.wdata ∧ (step s r l).wmask = s.wmask ∧
        (step s r l).rspValid = false := by
  cases hf : s.fsm
  case idle => exact absurd hf hb
  case write =>
    rw [step_write s r l hf, fires_write hf]
    simp only [made, hf, awDone, wDone, awvalid, wvalid, writing, settle, Tally.add]
    cases s.awSent <;> cases l.awready <;> cases s.wSent <;> cases l.wready <;> simp
  case writeB =>
    rw [step_writeB s r l hf] at hn ⊢
    rw [fires_writeB hf]
    cases hv : l.bvalid
    · simp [made, hf, writing, settle, Tally.add]
    · simp [hv, answer] at hn
  case read =>
    rw [step_read s r l hf, fires_read hf]
    cases hv : l.arready <;> simp [made, hf, writing, settle, Tally.add]
  case readR =>
    rw [step_readR s r l hf] at hn ⊢
    rw [fires_readR hf]
    cases hv : l.rvalid
    · simp [made, hf, writing, settle, Tally.add]
    · simp [hv, answer] at hn

/-- The step into the idle state makes the last handshake and gives the response. -/
theorem last_step (hb : s.fsm ≠ .idle) (hn : (step s r l).fsm = .idle) :
    (made s).add (fires s l) = transfer (writing s) ∧ (step s r l).rspValid = true ∧
      (step s r l).rspFault = (if writing s then l.bresp != 0 else l.rresp != 0) ∧
        (if writing s then bready s && l.bvalid else rready s && l.rvalid) = true ∧
          (writing s = false → (step s r l).rspRdata = l.rdata) := by
  cases hf : s.fsm
  case idle => exact absurd hf hb
  case write =>
    rw [step_write s r l hf] at hn
    cases h : awDone s l && wDone s l <;> simp [h] at hn
  case writeB =>
    rw [step_writeB s r l hf] at hn ⊢
    cases hv : l.bvalid
    · simp [hv, settle, hf] at hn
    · simp [made, hf, fires_writeB hf, bready, writing, answer, Tally.add, transfer, hv]
  case read =>
    rw [step_read s r l hf] at hn
    cases hv : l.arready <;> simp [hv, settle, hf] at hn
  case readR =>
    rw [step_readR s r l hf] at hn ⊢
    cases hv : l.rvalid
    · simp [hv, settle, hf] at hn
    · simp [made, hf, fires_readR hf, rready, writing, answer, Tally.add, transfer, hv]

theorem made_within (s : State) : (made s).Within (transfer (writing s)) := by
  unfold made Tally.Within transfer writing
  cases s.fsm <;> cases s.awSent <;> cases s.wSent <;> decide

/-- Not even with the handshakes of its cycle has a busy master made more than the transfer. -/
theorem made_fires_within (r : Req) (hb : s.fsm ≠ .idle) :
    ((made s).add (fires s l)).Within (transfer (writing s)) := by
  by_cases hn : (step s r l).fsm = .idle
  · rw [(last_step hb hn).1]
    simp [Tally.Within]
  · obtain ⟨hm, hw, -⟩ := busy_step hb hn
    rw [← hm, ← hw]
    exact made_within _

end

variable (inp : Nat → In)

theorem rests_run (t : Nat) : Rests (run inp t) := by
  refine Sync.run_invariant ?_ (fun s i h => rests_step s i.req i.lines h) t
  simp [Rests, reset]

/-! ## Events -/

def accepted (t : Nat) : Bool := (inp t).req.valid && reqReady (run inp t)
def awFire (t : Nat) : Bool := awvalid (run inp t) && (inp t).lines.awready
def wFire (t : Nat) : Bool := wvalid (run inp t) && (inp t).lines.wready
def bFire (t : Nat) : Bool := bready (run inp t) && (inp t).lines.bvalid
def arFire (t : Nat) : Bool := arvalid (run inp t) && (inp t).lines.arready
def rFire (t : Nat) : Bool := rready (run inp t) && (inp t).lines.rvalid
def responds (t : Nat) : Bool := (run inp t).rspValid

/-- The handshakes after cycle `a` and before cycle `u`. -/
def tally (a u : Nat) : Tally where
  aw := Events.count (awFire inp) a u
  w := Events.count (wFire inp) a u
  b := Events.count (bFire inp) a u
  ar := Events.count (arFire inp) a u
  r := Events.count (rFire inp) a u

variable {inp} {a u t : Nat}

theorem tally_start : tally inp a (a + 1) = { aw := 0, w := 0, b := 0, ar := 0, r := 0 } := by
  simp [tally, Events.count_start]

theorem tally_succ (h : a < u) :
    tally inp a (u + 1) = (tally inp a u).add (fires (run inp u) (inp u).lines) := by
  simp only [tally, Events.count_succ h]
  rfl

/-! ## One transfer -/

/-- The transfer of the request accepted in cycle `a` is under way in cycle `u`. -/
structure Underway (inp : Nat → In) (a u : Nat) : Prop where
  busy : (run inp u).fsm ≠ .idle
  side : writing (run inp u) = (inp a).req.wen
  addr : (run inp u).addr = (inp a).req.addr
  wdata : (run inp u).wdata = (inp a).req.wdata
  wmask : (run inp u).wmask = (inp a).req.wmask
  tally : tally inp a u = made (run inp u)
  silent : responds inp u = false

theorem idle_of_accepted (h : accepted inp t = true) : (run inp t).fsm = .idle := by
  simp only [accepted, reqReady, Bool.and_eq_true, beq_iff_eq] at h
  exact h.2.1.1

theorem accepted_of_busy (h : (run inp t).fsm ≠ .idle) : accepted inp t = false := by
  cases ha : accepted inp t
  · rfl
  · exact absurd (idle_of_accepted ha) h

theorem run_accepted (h : accepted inp a = true) : run inp (a + 1) = latch (run inp a) (inp a).req := by
  rw [run_succ, step_idle _ _ _ (idle_of_accepted h)]
  unfold accepted at h
  rw [h]
  rfl

theorem underway_start (h : accepted inp a = true) : Underway inp a (a + 1) := by
  have hr := run_accepted h
  constructor
  case tally =>
    rw [tally_start, hr]
    cases hw : (inp a).req.wen <;> simp [made, latch, hw]
  case silent =>
    unfold responds
    rw [hr]
    rfl
  all_goals rw [hr]; cases hw : (inp a).req.wen <;> simp [latch, writing, hw]

/-- A transfer under way stays so until the response. -/
theorem underway_step (ha : a < u) (h : Underway inp a u) (hr : responds inp (u + 1) = false) :
    Underway inp a (u + 1) := by
  have hn : (run inp (u + 1)).fsm ≠ .idle := by
    intro hi
    obtain ⟨-, hv, -⟩ := last_step (r := (inp u).req) h.busy hi
    rw [responds, run_succ, hv] at hr
    simp at hr
  obtain ⟨hm, hw, haddr, hdata, hmask, -⟩ := busy_step (r := (inp u).req) h.busy hn
  exact
    { busy := hn
      side := hw.trans h.side
      addr := haddr.trans h.addr
      wdata := hdata.trans h.wdata
      wmask := hmask.trans h.wmask
      tally := by rw [tally_succ ha, h.tally]; exact hm.symm
      silent := hr }

theorem underway_run (h : accepted inp a = true) (hau : a < u)
    (hq : ∀ v, a < v → v ≤ u → responds inp v = false) : Underway inp a u := by
  induction u, hau using Nat.le_induction with
  | base => exact underway_start h
  | succ u hau ih => exact underway_step hau (ih fun v hv hvu => hq v hv (by omega)) (hq (u + 1) (by omega) (le_refl _))

/-- Whatever the master shows or does belongs to a request accepted before, and not yet answered. -/
theorem origin (h : (run inp u).fsm ≠ .idle ∨ responds inp u = true) :
    ∃ a, a < u ∧ accepted inp a = true ∧ ∀ v, a < v → v < u → accepted inp v = false ∧ responds inp v = false := by
  induction u with
  | zero => simp [run, reset, responds] at h
  | succ u ih =>
      by_cases hb : (run inp u).fsm = .idle
      · have hs := step_idle (run inp u) (inp u).req (inp u).lines hb
        cases ha : accepted inp u
        · unfold accepted at ha
          rw [ha] at hs
          have hr : run inp (u + 1) = settle (run inp u) := hs
          simp [responds, hr, settle, hb] at h
        · exact ⟨u, by omega, ha, fun v huv hv => absurd hv (by omega)⟩
      · obtain ⟨a, hau, ha, hq⟩ := ih (.inl hb)
        refine ⟨a, by omega, ha, fun v hav hv => ?_⟩
        rcases Nat.lt_or_eq_of_le (Nat.le_of_lt_succ hv) with hlt | heq
        · exact hq v hav hlt
        · rw [heq]
          refine ⟨accepted_of_busy hb, ?_⟩
          cases hr : responds inp u
          · rfl
          · exact absurd (rests_run inp u (.inl hr)) hb

/-! ## Valid until ready -/

theorem awvalid_stays (h : awvalid (run inp t) = true) (hr : (inp t).lines.awready = false) :
    awvalid (run inp (t + 1)) = true ∧ (run inp (t + 1)).addr = (run inp t).addr := by
  simp only [awvalid, Bool.and_eq_true, beq_iff_eq, Bool.not_eq_true'] at h
  rw [run_succ, step_write _ _ _ h.1]
  simp [awvalid, awDone, h, hr, settle]

theorem wvalid_stays (h : wvalid (run inp t) = true) (hr : (inp t).lines.wready = false) :
    wvalid (run inp (t + 1)) = true ∧ (run inp (t + 1)).wdata = (run inp t).wdata ∧
      (run inp (t + 1)).wmask = (run inp t).wmask := by
  simp only [wvalid, Bool.and_eq_true, beq_iff_eq, Bool.not_eq_true'] at h
  rw [run_succ, step_write _ _ _ h.1]
  simp [wvalid, wDone, h, hr, settle]

theorem arvalid_stays (h : arvalid (run inp t) = true) (hr : (inp t).lines.arready = false) :
    arvalid (run inp (t + 1)) = true ∧ (run inp (t + 1)).addr = (run inp t).addr := by
  have hf : (run inp t).fsm = .read := by simpa [arvalid] using h
  rw [run_succ, step_read _ _ _ hf]
  simp [arvalid, hr, settle, hf]

/-! ## Progress -/

/-- The handshakes that a busy master still waits for. -/
def remaining (s : State) : Nat :=
  match s.fsm with
  | .idle => 0
  | .write => 2 + (!s.awSent).toNat + (!s.wSent).toNat
  | .writeB | .readR => 1
  | .read => 2

/-- A step that hears nothing it waits for. -/
@[mk_iff holds_iff] structure Holds (s : State) (l : Lines) (s' : State) : Prop where
  fsm : s'.fsm = s.fsm
  awSent : s'.awSent = s.awSent
  wSent : s'.wSent = s.wSent
  aw : awvalid s = true → l.awready = false
  w : wvalid s = true → l.wready = false
  b : bready s = true → l.bvalid = false
  ar : arvalid s = true → l.arready = false
  r : rready s = true → l.rvalid = false
  unsent : s.fsm = .write → s.awSent = false ∨ s.wSent = false

theorem remaining_step {s : State} {r : Req} {l : Lines} (hb : s.fsm ≠ .idle) :
    remaining (step s r l) < remaining s ∨ Holds s l (step s r l) := by
  cases hf : s.fsm
  case idle => exact absurd hf hb
  case write =>
    rw [step_write s r l hf]
    simp only [remaining, hf, awDone, wDone, awvalid, wvalid, settle]
    cases ha : s.awSent <;> cases har : l.awready <;> cases hw : s.wSent <;> cases hwr : l.wready <;>
      simp [holds_iff, hf, ha, har, hw, hwr, awvalid, wvalid, bready, arvalid, rready]
  case writeB =>
    rw [step_writeB s r l hf]
    cases hv : l.bvalid
    · right
      constructor <;> simp [settle, awvalid, wvalid, arvalid, rready, hf, hv]
    · left
      simp [remaining, answer, hf]
  case read =>
    rw [step_read s r l hf]
    cases hv : l.arready
    · right
      constructor <;> simp [settle, awvalid, wvalid, bready, rready, hf, hv]
    · left
      simp [remaining, hf]
  case readR =>
    rw [step_readR s r l hf]
    cases hv : l.rvalid
    · right
      constructor <;> simp [settle, awvalid, wvalid, bready, arvalid, hf, hv]
    · left
      simp [remaining, answer, hf]

/-- A slave that meets every VALID with a READY and every READY for a response with a VALID, in the end. -/
structure SlaveAnswers (inp : Nat → In) : Prop where
  aw : ∀ t, awvalid (run inp t) = true → ∃ u, t ≤ u ∧ (inp u).lines.awready = true
  w : ∀ t, wvalid (run inp t) = true → ∃ u, t ≤ u ∧ (inp u).lines.wready = true
  b : ∀ t, bready (run inp t) = true → ∃ u, t ≤ u ∧ (inp u).lines.bvalid = true
  ar : ∀ t, arvalid (run inp t) = true → ∃ u, t ≤ u ∧ (inp u).lines.arready = true
  r : ∀ t, rready (run inp t) = true → ∃ u, t ≤ u ∧ (inp u).lines.rvalid = true

/-- A master that is never heard again waits in one and the same state. -/
theorem holds_forever (hb : (run inp t).fsm ≠ .idle) (h : ∀ u, t ≤ u → remaining (run inp t) ≤ remaining (run inp u))
    (hu : t ≤ u) :
    ((run inp u).fsm = (run inp t).fsm ∧ (run inp u).awSent = (run inp t).awSent ∧
      (run inp u).wSent = (run inp t).wSent) ∧
        Holds (run inp u) (inp u).lines (run inp (u + 1)) := by
  have hold : ∀ v, t ≤ v → (run inp v).fsm = (run inp t).fsm → remaining (run inp v) = remaining (run inp t) →
      Holds (run inp v) (inp v).lines (run inp (v + 1)) := by
    intro v htv hf hr
    rcases remaining_step (r := (inp v).req) (l := (inp v).lines) (hf ▸ hb) with hlt | hh
    · have hle := h (v + 1) (by omega)
      rw [run_succ, ← hr] at hle
      omega
    · exact hh
  have stay : (run inp u).fsm = (run inp t).fsm ∧ (run inp u).awSent = (run inp t).awSent ∧
      (run inp u).wSent = (run inp t).wSent := by
    induction u, hu using Nat.le_induction with
    | base => exact ⟨rfl, rfl, rfl⟩
    | succ v htv ih =>
        obtain ⟨hf, ha, hw⟩ := ih
        have hh := hold v htv hf (by unfold remaining; rw [hf, ha, hw])
        exact ⟨hh.fsm.trans hf, hh.awSent.trans ha, hh.wSent.trans hw⟩
  obtain ⟨hf, ha, hw⟩ := stay
  exact ⟨⟨hf, ha, hw⟩, hold u hu hf (by unfold remaining; rw [hf, ha, hw])⟩

theorem remaining_falls (hs : SlaveAnswers inp) (t : Nat) (hpos : 0 < remaining (run inp t)) :
    ∃ u, t ≤ u ∧ remaining (run inp u) < remaining (run inp t) := by
  by_contra hno
  have hle : ∀ u, t ≤ u → remaining (run inp t) ≤ remaining (run inp u) := by
    intro u hu
    by_contra hlt
    exact hno ⟨u, hu, by omega⟩
  have hb : (run inp t).fsm ≠ .idle := by
    intro hi
    simp [remaining, hi] at hpos
  have now := (holds_forever hb hle (le_refl t)).2
  cases hf : (run inp t).fsm
  case idle => exact hb hf
  case write =>
    rcases now.unsent hf with ha | hw
    · obtain ⟨u, hu, hr⟩ := hs.aw t (by simp [awvalid, hf, ha])
      obtain ⟨⟨hfu, hau, -⟩, hh⟩ := holds_forever hb hle hu
      exact Bool.eq_false_iff.mp (hh.aw (by simp [awvalid, hfu, hf, hau, ha])) hr
    · obtain ⟨u, hu, hr⟩ := hs.w t (by simp [wvalid, hf, hw])
      obtain ⟨⟨hfu, -, hwu⟩, hh⟩ := holds_forever hb hle hu
      exact Bool.eq_false_iff.mp (hh.w (by simp [wvalid, hfu, hf, hwu, hw])) hr
  case writeB =>
    obtain ⟨u, hu, hr⟩ := hs.b t (by simp [bready, hf])
    obtain ⟨⟨hfu, -⟩, hh⟩ := holds_forever hb hle hu
    exact Bool.eq_false_iff.mp (hh.b (by simp [bready, hfu, hf])) hr
  case read =>
    obtain ⟨u, hu, hr⟩ := hs.ar t (by simp [arvalid, hf])
    obtain ⟨⟨hfu, -⟩, hh⟩ := holds_forever hb hle hu
    exact Bool.eq_false_iff.mp (hh.ar (by simp [arvalid, hfu, hf])) hr
  case readR =>
    obtain ⟨u, hu, hr⟩ := hs.r t (by simp [rready, hf])
    obtain ⟨⟨hfu, -⟩, hh⟩ := holds_forever hb hle hu
    exact Bool.eq_false_iff.mp (hh.r (by simp [rready, hfu, hf])) hr

theorem response_comes (hs : SlaveAnswers inp) (h : accepted inp a = true) :
    ∃ u, a < u ∧ responds inp u = true := by
  by_contra hno
  have hq : ∀ v, a < v → responds inp v = false := by
    intro v hv
    cases hr : responds inp v
    · rfl
    · exact absurd ⟨v, hv, hr⟩ hno
  obtain ⟨u, hu, hz⟩ := Sync.descends (remaining_falls hs) (a + 1)
  have hb := (underway_run h hu fun v hv _ => hq v hv).busy
  unfold remaining at hz
  cases hf : (run inp u).fsm <;> simp [hf] at hz hb

/-! ## The discipline -/

/-- What becomes of the request accepted in cycle `a` when the response is given in cycle `u`. -/
structure Answered (inp : Nat → In) (a u : Nat) : Prop where
  handshakes : tally inp a u = transfer (inp a).req.wen
  write : (inp a).req.wen = true →
    ∃ v, a < v ∧ v < u ∧ bFire inp v = true ∧ (run inp u).rspFault = ((inp v).lines.bresp != 0)
  read : (inp a).req.wen = false →
    ∃ v, a < v ∧ v < u ∧ rFire inp v = true ∧ (run inp u).rspFault = ((inp v).lines.rresp != 0) ∧
      (run inp u).rspRdata = (inp v).lines.rdata

/-- The request accepted in cycle `a` before its response: no handshake too many, and each VALID with its payload. -/
structure Pending (inp : Nat → In) (a u : Nat) : Prop where
  alone : accepted inp u = false
  within : (tally inp a (u + 1)).Within (transfer (inp a).req.wen)
  aw : awvalid (run inp u) = true → (run inp u).addr = (inp a).req.addr
  w : wvalid (run inp u) = true → (run inp u).wdata = (inp a).req.wdata ∧ (run inp u).wmask = (inp a).req.wmask
  ar : arvalid (run inp u) = true → (run inp u).addr = (inp a).req.addr

/-- A VALID of a request or a READY for a response is up. -/
def active (s : State) : Bool := awvalid s || wvalid s || bready s || arvalid s || rready s

structure HandshakeRules (inp : Nat → In) : Prop where
  aw_stable : ∀ t, awvalid (run inp t) = true → (inp t).lines.awready = false →
    awvalid (run inp (t + 1)) = true ∧ (run inp (t + 1)).addr = (run inp t).addr
  w_stable : ∀ t, wvalid (run inp t) = true → (inp t).lines.wready = false →
    wvalid (run inp (t + 1)) = true ∧ (run inp (t + 1)).wdata = (run inp t).wdata ∧
      (run inp (t + 1)).wmask = (run inp t).wmask
  ar_stable : ∀ t, arvalid (run inp t) = true → (inp t).lines.arready = false →
    arvalid (run inp (t + 1)) = true ∧ (run inp (t + 1)).addr = (run inp t).addr
  pending : ∀ a u, a < u → accepted inp a = true → (∀ v, a < v → v ≤ u → responds inp v = false) → Pending inp a u
  answered : ∀ a u, a < u → accepted inp a = true → responds inp u = true →
    (∀ v, a < v → v < u → responds inp v = false) → Answered inp a u
  once : ∀ u u', u < u' → responds inp u = true → responds inp u' = true → ∃ a, u < a ∧ a < u' ∧ accepted inp a = true
  comes : SlaveAnswers inp → ∀ a, accepted inp a = true → ∃ u, a < u ∧ responds inp u = true
  origin : ∀ u, active (run inp u) = true ∨ responds inp u = true →
    ∃ a, a < u ∧ accepted inp a = true ∧ ∀ v, a < v → v < u → accepted inp v = false ∧ responds inp v = false
  rests : ∀ t, responds inp t = true ∨ (run inp t).cooldown ≠ 0 →
    accepted inp t = false ∧ (run inp (t + 1)).fsm = .idle

theorem pending_of_underway (hau : a < u) (h : Underway inp a u) : Pending inp a u where
  alone := accepted_of_busy h.busy
  within := by
    rw [tally_succ hau, h.tally, ← h.side]
    exact made_fires_within (inp u).req h.busy
  aw _ := h.addr
  w _ := ⟨h.wdata, h.wmask⟩
  ar _ := h.addr

theorem answered_of_underway (hau : a < u) (h : Underway inp a u) (hr : responds inp (u + 1) = true) :
    Answered inp a (u + 1) := by
  have hn : (run inp (u + 1)).fsm = .idle := rests_run inp (u + 1) (.inl hr)
  obtain ⟨hmade, -, hfault, hfire, hdata⟩ := last_step (r := (inp u).req) h.busy hn
  rw [h.side] at hmade hfault hfire hdata
  refine ⟨?_, fun hw => ?_, fun hw => ?_⟩
  · rw [tally_succ hau, h.tally]
    exact hmade
  · rw [hw] at hfault hfire
    exact ⟨u, hau, by omega, hfire, hfault⟩
  · rw [hw] at hfault hfire
    exact ⟨u, hau, by omega, hfire, hfault, hdata hw⟩

theorem rests_now (h : responds inp t = true ∨ (run inp t).cooldown ≠ 0) :
    accepted inp t = false ∧ (run inp (t + 1)).fsm = .idle := by
  have hi := rests_run inp t h
  have ha : accepted inp t = false := by
    simp only [accepted, reqReady]
    rcases h with hr | hc
    · rw [show (run inp t).rspValid = true from hr]
      simp
    · simp [show (run inp t).cooldown ≠ 0#4 from hc]
  refine ⟨ha, ?_⟩
  rw [run_succ, step_idle _ _ _ hi]
  unfold accepted at ha
  rw [ha]
  exact hi

theorem accepted_between (hut : u < t) (hu : responds inp u = true) (ht : responds inp t = true) :
    ∃ a, u < a ∧ a < t ∧ accepted inp a = true := by
  obtain ⟨a, hat, ha, hq⟩ := origin (.inr ht)
  refine ⟨a, ?_, hat, ha⟩
  rcases Nat.lt_trichotomy a u with hlt | heq | hgt
  · rw [(hq u hlt hut).2] at hu
    simp at hu
  · rw [heq, (rests_now (.inl hu)).1] at ha
    simp at ha
  · exact hgt

/-- The master keeps to the handshake with any slave and for any requests. -/
theorem handshakeRules (inp : Nat → In) : HandshakeRules inp where
  aw_stable _ := awvalid_stays
  w_stable _ := wvalid_stays
  ar_stable _ := arvalid_stays
  pending a u hau ha hq := pending_of_underway hau (underway_run ha hau hq)
  answered a u hau ha hr hq := by
    obtain ⟨v, rfl⟩ := Nat.exists_eq_add_of_lt hau
    rcases Nat.eq_zero_or_pos v with rfl | hv
    · rw [(underway_start ha).silent] at hr
      simp at hr
    · exact answered_of_underway (by omega) (underway_run ha (by omega) fun w hw hwv => hq w hw (by omega)) hr
  comes hs a ha := response_comes hs ha
  origin u h := by
    refine origin (h.imp_left fun hact hi => ?_)
    simp [active, awvalid, wvalid, bready, arvalid, rready, hi] at hact
  once _ _ := accepted_between
  rests _ := rests_now

end QinglongCore.Axi4Master
