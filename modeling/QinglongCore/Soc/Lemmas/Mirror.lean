import QinglongCore.Isa.Hart
import QinglongCore.Isa.QueuedMemory
import QinglongCore.Pipeline.Lemmas.Unseen
import QinglongCore.Soc.Lemmas.Quiet

/-!
# The chip beside a core on a memory

As long as the program leaves the CSRs alone and keeps to the SRAM and the console port, the core of the chip runs
like one on a memory behind a queue: the request register is the queue, and the SRAM holds what has left it.
-/

namespace QinglongCore.SocTop

open CorePipeline (Alike AlikeIn dmemReqWen ifetchReqValid memRspThisCycle shows)
open Isa (Access Queue Surroundings contents)

/-! ## Accesses on the bus -/

def request (r : Mmu.Req) : Access := Isa.portAccess r.addr r.wen r.wdata r.wmask r.size

/-- The byte that an access sends to the console. -/
def consoleOf : Access → Option (BitVec 8)
  | .read _ _ => none
  | .write a _ d m => if a = Mmio.ADDR_CONSOLE ∧ m.getLsbD 0 = true then some (d.extractLsb' 0 8) else none

/-- The code that an access leaves with. -/
def exitOf : Access → Option Word
  | .read _ _ => none
  | .write a _ d _ => if a = Mmio.ADDR_EXIT then some d else none

/-- The access is to a word of the SRAM or a write to the console port, and does not write to the text. -/
structure Fits (text : Word → Prop) (a : Access) : Prop where
  aligned : alignWord a.addr = a.addr
  place : Fabric.isSram a.addr = true ∨ IsPort a.addr
  read : a.store = none → Fabric.isSram a.addr = true
  kept : a.store ≠ none → ¬ text a.addr

/-- A full console holds back the stores to it. -/
def surroundings (x : State) (i : In) : Surroundings where
  passes
    | .read _ _ => true
    | .write a _ _ _ => a != Mmio.ADDR_CONSOLE || i.consoleReady
  ext := ext x

/-- The byte that comes out of the console port in this cycle. -/
def pulse (x : State) : List (BitVec 8) := if x.mmio.consoleValid then [x.mmio.consoleByte] else []

/-! ## The relation -/

section
variable (mem₀ : Word → Word) (text : Word → Prop) (out : List (BitVec 8))

/-- The accesses of `done` have reached the SRAM and the console port. -/
structure Settled (done : List Access) (x : State) : Prop where
  mem : ∀ a, Fabric.isSram a = true → x.fabric.sram.mem (Fabric.bWordAddr a) = contents mem₀ done a
  printed : out ++ pulse x = done.filterMap consoleOf
  exit : exitCode x = (done.filterMap exitOf).getLast?

/-- The answers that the memory and the chip give in this cycle. -/
structure Answering (q : Queue) (x : State) : Prop where
  sram : x.fabric.sram.bRspValid = q.answering.any fun a => Fabric.isSram a.addr
  data : ∀ a, q.answering = some a → a.store = none → x.fabric.sram.bRspRdata = contents mem₀ q.log a.addr
  mmio : x.mmio.rspValid = q.answering.any fun a => !Fabric.isSram a.addr
  clean : x.mmio.rspFault = false
  fetch : x.aRspValid = q.fetching.isSome
  word : ∀ pc, q.fetching = some pc → x.aRspRdata = contents mem₀ q.log pc

structure Mirrors (s : CorePipeline.State) (q : Queue) (x : State) : Prop where
  alike : Alike s x.soc.core
  bare : Soc.Bare x.soc
  quiet : Quiet x
  fits : ∀ a ∈ q.log, Fits text a
  waiting : q.waiting = if x.soc.pipe.valid then [request x.soc.pipe.req] else []
  single : q.answering.isSome = true → q.waiting = []
  logged : ∀ {a}, q.answering = some a → a ∈ q.log
  fired : q.waiting ≠ [] ∨ q.answering.isSome = true → s.bus.reqFired = true
  beat : ∀ a, a ∈ q.waiting ∨ q.answering = some a → dmemReqWen s = a.store.isSome
  settled : ∃ done, q.log = done ++ q.waiting ∧ Settled mem₀ out done x
  answering : Answering mem₀ q x

end

variable {mem₀ : Word → Word} {text : Word → Prop} {out : List (BitVec 8)} {s : CorePipeline.State} {q : Queue}
  {x : State} {i : In} {r : Mmu.Req}

/-! ## Addresses of the SRAM -/

theorem isSram_iff {a : Word} : Fabric.isSram a = true ↔ a.toNat / 65536 = 0x8000 := by
  rw [Fabric.isSram, beq_iff_eq, ← BitVec.toNat_inj, BitVec.extractLsb'_toNat, Nat.shiftRight_eq_div_pow]
  have := a.isLt
  have h8 : (0x8000#16).toNat = 0x8000 := rfl
  omega

theorem isSram_alignWord {a : Word} : Fabric.isSram (alignWord a) = Fabric.isSram a := by
  rw [Bool.eq_iff_iff, isSram_iff, isSram_iff, Isa.alignWord_toNat]
  omega

/-- In the SRAM the bits of the word address tell words apart. -/
theorem bWordAddr_inj {a b : Word} (ha : Fabric.isSram a = true) (hb : Fabric.isSram b = true) :
    Fabric.bWordAddr a = Fabric.bWordAddr b ↔ alignWord a = alignWord b := by
  rw [isSram_iff] at ha hb
  have hw (c : Word) : (Fabric.bWordAddr c).toNat = c.toNat / 4 % 16384 := by
    rw [Fabric.bWordAddr, BitVec.extractLsb'_toNat, Nat.shiftRight_eq_div_pow]
  rw [← BitVec.toNat_inj, ← BitVec.toNat_inj, hw, hw, Isa.alignWord_toNat, Isa.alignWord_toNat]
  omega

theorem not_isSram_of_port {a : Word} (h : IsPort a) : Fabric.isSram a = false := (isPort_only h).1

theorem store_request : (request r).store.isSome = r.wen := by
  unfold request Isa.portAccess
  cases r.wen <;> rfl

theorem addr_request : (request r).addr = r.addr := by
  unfold request Isa.portAccess
  split <;> rfl

/-! ## The oldest access -/

/-- The bus takes the request in the register when the surroundings let it pass. -/
theorem dmReqReady_fits (hb : Soc.Bare x.soc) (hf : Fits text (request x.soc.pipe.req)) (hv : x.soc.pipe.valid = true) :
    Fabric.dmReqReady x.fabric (fabricIn x i) = (surroundings x i).passes (request x.soc.pipe.req) := by
  have hp : Fabric.arbPickPtw (fabricIn x i) = false := by
    show (Mmu.ptwReqValid x.soc.mmu && _) = false
    rw [hb.ptwReqValid, Bool.false_and]
  have hplace := hf.place
  have hread := hf.read
  have hwen := store_request (r := x.soc.pipe.req)
  rw [addr_request] at hplace hread
  show (if Fabric.isSram (dmReq x).addr then _ else if Fabric.dmIsMmio (dmReq x).addr then
    Mmio.reqReady (mmioReq x) i.consoleReady else _) = _
  have hm : mmioReq x = ⟨x.soc.pipe.valid && Fabric.dmIsMmio x.soc.pipe.req.addr, x.soc.pipe.req.addr,
      x.soc.pipe.req.wen, x.soc.pipe.req.wdata, x.soc.pipe.req.wmask⟩ := by
    rw [mmioReq, dmReq_bare hb]
  rw [hp, hm, dmReq_bare hb, hv]
  simp only [Bool.true_and, Bool.false_eq_true, if_false, Fabric.sramBReqReady]
  have hpass : (surroundings x i).passes (request x.soc.pipe.req) =
      (!(x.soc.pipe.req.wen && x.soc.pipe.req.addr == Mmio.ADDR_CONSOLE) || i.consoleReady) := by
    unfold request Isa.portAccess
    cases x.soc.pipe.req.wen <;> rfl
  rw [hpass]
  rcases hplace with hs | hport
  · have hc : (x.soc.pipe.req.addr == Mmio.ADDR_CONSOLE) = false := by
      rw [beq_eq_false_iff_ne]
      intro he
      rw [he] at hs
      exact absurd hs (by decide)
    simp [hs, hc]
  · obtain ⟨h₁, -, -, -, h₂⟩ := isPort_only hport
    rw [h₁, h₂]
    simp only [Bool.false_eq_true, if_false, if_true, Mmio.reqReady, Mmio.isConsoleStore, Bool.true_and]
    cases x.soc.pipe.req.wen && x.soc.pipe.req.addr == Mmio.ADDR_CONSOLE <;> rfl

/-! ## The lines of the core -/

namespace Mirrors

variable (h : Mirrors mem₀ text out s q x)
include h

theorem waiting_fits (hv : x.soc.pipe.valid = true) : Fits text (request x.soc.pipe.req) := by
  obtain ⟨done, hlog, -⟩ := h.settled
  refine h.fits _ ?_
  rw [hlog, h.waiting, hv]
  simp

theorem moves (i : In) : q.moves (surroundings x i) =
    (x.soc.pipe.valid && Fabric.dmReqReady x.fabric (fabricIn x i)) := by
  rw [Queue.moves, h.waiting]
  cases hv : x.soc.pipe.valid
  · rfl
  · rw [dmReqReady_fits h.bare (h.waiting_fits hv) hv]
    rfl

theorem ifetchReqValid_core (e : Ext) : ifetchReqValid x.soc.core e = ifetchReqValid s e := by
  obtain ⟨⟨y, z, hs⟩, -, hwb⟩ := h.alike
  rw [hs] at hwb ⊢
  exact CorePipeline.ifetchReqValid_relabel hwb e

theorem core_fields : x.soc.core.fetch = s.fetch ∧ x.soc.core.mem = s.mem ∧ x.soc.core.csr = s.csr ∧
    CorePipeline.dmemReqValid x.soc.core = CorePipeline.dmemReqValid s ∧
    Soc.coreDmReq x.soc = ⟨CorePipeline.dmemReqAddr s, dmemReqWen s, CorePipeline.dmemReqWdata s,
      CorePipeline.dmemReqWmask s, CorePipeline.dmemReqSize s⟩ := by
  obtain ⟨⟨y, z, hs⟩, -, -⟩ := h.alike
  rw [Soc.coreDmReq, hs]
  exact ⟨rfl, rfl, rfl, rfl, rfl⟩

variable (htext : ∀ a, text a → Fabric.isSram a = true)
  (hfetch : ifetchReqValid s (ext x) = true → text (alignWord s.fetch.pc))
include htext hfetch

theorem onSite : Local x where
  ptw := h.bare.ptwReqValid
  fetch hv := by
    rw [ifReqValid_bare h.bare, h.ifetchReqValid_core] at hv
    rw [ifReqAddr_bare h.bare, h.core_fields.1, ← isSram_alignWord]
    exact htext _ (hfetch hv)
  data hv := by
    rw [dmReq_bare h.bare] at hv ⊢
    have hf := (h.waiting_fits hv).place
    rwa [addr_request] at hf

/-- The chip and the memory give the core the same answers. -/
theorem alikeIn (i : In) : AlikeIn s (q.answer mem₀ (surroundings x i)) (coreIn x i) := by
  have ha := h.answering
  have hrsp : (x.fabric.sram.bRspValid || x.mmio.rspValid) = q.answering.isSome := by
    rw [ha.sram, ha.mmio]
    cases q.answering with
    | none => rfl
    | some a => simp
  have hword : (if x.aRspValid then x.aRspRdata else 0#32) = (q.fetching.map (contents mem₀ q.log)).getD 0#32 := by
    rw [ha.fetch]
    cases hf : q.fetching with
    | none => rfl
    | some pc => exact ha.word pc hf
  have hready : (!x.soc.pipe.valid || Fabric.dmReqReady x.fabric (fabricIn x i)) =
      (q.waiting.isEmpty || q.moves (surroundings x i)) := by
    rw [h.moves, h.waiting]
    cases x.soc.pipe.valid <;> rfl
  rw [coreIn_eq h.bare h.quiet, hrsp, hword, hready, ha.clean, ha.fetch]
  refine ⟨⟨_, _, rfl⟩, fun hr hw => ?_, fun hv => ?_⟩
  · -- an answer to a read comes from the SRAM
    have hsome : q.answering.isSome = true := (CorePipeline.memRspThisCycle_elim hr).2.2
    obtain ⟨a, hans⟩ := Option.isSome_iff_exists.mp hsome
    have hstore : a.store = none := by
      have hb := h.beat a (.inr hans)
      rw [hw] at hb
      exact Option.isSome_eq_false_iff.mp hb.symm |> Option.isNone_iff_eq_none.mp
    have hlog : a ∈ q.log := h.logged hans
    have hs := (h.fits a hlog).read hstore
    have hb : x.fabric.sram.bRspValid = true := by rw [ha.sram, hans]; exact hs
    show (Fabric.dmRsp x.fabric (fabricIn x i)).data = (q.answering.map _).getD 0#32
    rw [hans]
    show (if (Fabric.sramBRsp x.fabric false).valid then _ else _) = contents mem₀ q.log a.addr
    rw [if_pos (by simp [Fabric.sramBRsp, hb, h.quiet.last])]
    exact ha.data a hans hstore
  · show Fabric.ifReqReady x.fabric (fabricIn x i) = true
    have hsram : Fabric.isSram (ifReqAddr x) = true := by
      refine (h.onSite htext hfetch).fetch ?_
      rw [ifReqValid_bare h.bare, h.ifetchReqValid_core]
      exact hv
    show (if Fabric.isSram (ifReqAddr x) then true else _) = true
    rw [if_pos hsram]

end Mirrors

/-! ## The request register -/

/-- The text is never written. -/
theorem contents_text {l : List Access} (hl : ∀ a ∈ l, Fits text a) {pc : Word} (hpc : text (alignWord pc)) :
    contents mem₀ l pc = mem₀ (alignWord pc) := by
  refine Isa.contents_untouched fun a ha st hst he => ?_
  have hkept := (hl a ha).kept (by rw [hst]; exact Option.some_ne_none st)
  cases a with
  | read b z => cases hst
  | write b z d m =>
      cases hst
      have hb : alignWord pc = b := he
      exact hkept (hb ▸ hpc)

namespace Mirrors

variable (h : Mirrors mem₀ text out s q x) (i : In)
include h

/-- A new access finds the queue empty. -/
theorem access_alone {a : Access} (ha : (shows s (q.answer mem₀ (surroundings x i))).access = some a) :
    q.waiting = [] ∧ q.answering = none ∧ CorePipeline.dmemReqValid s = true ∧
      a = request (Soc.coreDmReq x.soc) := by
  unfold shows at ha
  dsimp only at ha
  split_ifs at ha with hacc
  cases ha
  simp only [CorePipeline.dmemAccept, Bool.and_eq_true] at hacc
  have hv := hacc.1
  simp only [CorePipeline.dmemReqValid, Bool.and_eq_true, Bool.not_eq_true'] at hv
  have hnf : ¬ (q.waiting ≠ [] ∨ q.answering.isSome = true) := fun hf => by
    rw [h.fired hf] at hv
    cases hv.2
  simp only [not_or, not_not, Bool.not_eq_true, Option.isSome_eq_false_iff, Option.isNone_iff_eq_none] at hnf
  refine ⟨hnf.1, hnf.2, hacc.1, ?_⟩
  rw [h.core_fields.2.2.2.2]
  rfl

theorem upFire : Soc.dmPipeUpFire x.soc (socIn x i) =
    (shows s (q.answer mem₀ (surroundings x i))).access.isSome := by
  have hready : Soc.coreDmReqReady x.soc (socIn x i) = (q.answer mem₀ (surroundings x i)).dmemReqReady := by
    have hc := congrArg CorePipeline.In.dmemReqReady (coreIn_eq (i := i) h.bare h.quiet)
    show (coreIn x i).dmemReqReady = (q.waiting.isEmpty || q.moves (surroundings x i))
    rw [hc, h.moves, h.waiting]
    cases x.soc.pipe.valid <;> rfl
  rw [Soc.dmPipeUpFire, h.core_fields.2.2.2.1, hready]
  show CorePipeline.dmemAccept s (q.answer mem₀ (surroundings x i)) = _
  unfold shows
  cases CorePipeline.dmemAccept s (q.answer mem₀ (surroundings x i)) <;> rfl

theorem dnFire : Soc.dmPipeDnFire x.soc (socIn x i) = q.moves (surroundings x i) := by
  rw [Soc.dmPipeDnFire, h.bare.dmOut, h.moves]
  rfl

theorem waiting_step : (q.next (surroundings x i) (shows s (q.answer mem₀ (surroundings x i)))).waiting =
    if (step x i).soc.pipe.valid then [request (step x i).soc.pipe.req] else [] := by
  show (if q.moves (surroundings x i) then q.waiting.tail else q.waiting) ++
    (shows s (q.answer mem₀ (surroundings x i))).access.toList =
    if (Soc.pipeNext x.soc (socIn x i)).valid then [request (Soc.pipeNext x.soc (socIn x i)).req] else []
  rw [Soc.pipeNext, h.upFire, h.dnFire]
  cases ha : (shows s (q.answer mem₀ (surroundings x i))).access with
  | some a =>
      obtain ⟨hw, -, -, rfl⟩ := h.access_alone i ha
      simp [hw]
  | none =>
      have hm := h.moves i
      cases hv : x.soc.pipe.valid
      · have hm' : q.moves (surroundings x i) = false := by rw [hm, hv, Bool.false_and]
        simp [h.waiting, hv, hm']
      · cases hmv : q.moves (surroundings x i) <;> simp [h.waiting, hv]

/-- While an access waits or is taken, MEM keeps its instruction. -/
theorem held (hsp : CorePipeline.Spaced s) (hw : CorePipeline.wbRedirect s = false)
    (hpend : q.waiting ≠ [] ∨ (shows s (q.answer mem₀ (surroundings x i))).access ≠ none) :
    (CorePipeline.step s (q.answer mem₀ (surroundings x i))).mem = s.mem ∧
      (CorePipeline.step s (q.answer mem₀ (surroundings x i))).bus.reqFired = true := by
  have hans : q.answering = none := by
    rcases hpend with hp | hp
    · cases ha : q.answering with
      | none => rfl
      | some a => exact absurd (h.single (by rw [ha]; rfl)) hp
    · obtain ⟨a, ha⟩ := Option.ne_none_iff_exists'.mp hp
      exact (h.access_alone i ha).2.1
  have hrsp : memRspThisCycle s (q.answer mem₀ (surroundings x i)) = false := by
    show (s.mem.valid && s.mem.lsPending && q.answering.isSome) = false
    rw [hans, Option.isSome_none, Bool.and_false]
  have hbusy : CorePipeline.memBusy s = true := by
    rcases hpend with hp | hp
    · exact hsp.fired_busy (h.fired (.inl hp))
    · obtain ⟨a, ha⟩ := Option.ne_none_iff_exists'.mp hp
      have hv := (h.access_alone i ha).2.2.1
      simp only [CorePipeline.dmemReqValid, Bool.and_eq_true, Bool.not_eq_true'] at hv
      simp [CorePipeline.memBusy, hv]
  have hst : CorePipeline.stallMem s = true := by simp [CorePipeline.stallMem, hbusy]
  constructor
  · have hm : (CorePipeline.step s (q.answer mem₀ (surroundings x i))).mem =
        CorePipeline.memHold s (q.answer mem₀ (surroundings x i)) := CorePipeline.memNext_of_stall hw hst
    rw [hm, CorePipeline.memHold, hrsp]
    rfl
  · show (if CorePipeline.wbRedirect s then false else if memRspThisCycle s (q.answer mem₀ (surroundings x i)) then
      false else if CorePipeline.dmemAccept s (q.answer mem₀ (surroundings x i)) then true else s.bus.reqFired) = true
    rw [hw, hrsp]
    cases hacc : CorePipeline.dmemAccept s (q.answer mem₀ (surroundings x i))
    · rcases hpend with hp | hp
      · exact h.fired (.inl hp)
      · refine absurd ?_ hp
        unfold shows
        dsimp only
        rw [hacc]
        rfl
    · rfl

end Mirrors

/-! ## The SRAM and the console port -/

section
variable {done : List Access}

/-- The SRAM after a request of the register. -/
theorem mem_step (hb : Soc.Bare x.soc) (hl : Local x)
    (hmem : ∀ a, Fabric.isSram a = true → x.fabric.sram.mem (Fabric.bWordAddr a) = contents mem₀ done a)
    (hal : x.soc.pipe.valid = true → alignWord x.soc.pipe.req.addr = x.soc.pipe.req.addr) {a : Word}
    (ha : Fabric.isSram a = true) :
    (step x i).fabric.sram.mem (Fabric.bWordAddr a) =
      if x.soc.pipe.valid ∧ Fabric.isSram x.soc.pipe.req.addr then contents mem₀ (done ++ [request x.soc.pipe.req]) a
      else contents mem₀ done a := by
  show (Fabric.sramNext x.fabric (fabricIn x i)).mem _ = _
  rw [Fabric.sramNext, hl.sramBReq, dmReq_bare hb]
  simp only [Bool.and_eq_true]
  split_ifs with hv hw
  · have hreq : request x.soc.pipe.req = .write x.soc.pipe.req.addr x.soc.pipe.req.size x.soc.pipe.req.wdata
        x.soc.pipe.req.wmask := by
      rw [request, hw]
      rfl
    rw [hreq, Isa.contents_write]
    show (if Fabric.bWordAddr a = Fabric.bWordAddr x.soc.pipe.req.addr then _ else _) = _
    by_cases he : alignWord a = x.soc.pipe.req.addr
    · have hs : contents mem₀ done x.soc.pipe.req.addr = contents mem₀ done a := by rw [← he, Isa.contents_alignWord]
      rw [if_pos he, if_pos ((bWordAddr_inj ha hv.2).mpr (he.trans (hal hv.1).symm)), hmem _ hv.2, hs]
    · rw [if_neg he, if_neg fun hk => he (((bWordAddr_inj ha hv.2).mp hk).trans (hal hv.1))]
      exact hmem a ha
  · have hreq : request x.soc.pipe.req = .read x.soc.pipe.req.addr x.soc.pipe.req.size := by
      rw [request, Bool.eq_false_iff.mpr hw]
      rfl
    rw [hreq, Isa.contents_read]
    exact hmem a ha
  · exact hmem a ha

/-- A request to the console port leaves the SRAM alone. -/
theorem contents_of_port {l : List Access} (hs : Fabric.isSram r.addr ≠ true) {a : Word}
    (ha : Fabric.isSram a = true) : contents mem₀ (l ++ [request r]) a = contents mem₀ l a := by
  unfold request Isa.portAccess
  split
  · rw [Isa.contents_write, if_neg]
    intro he
    rw [← isSram_alignWord, he] at ha
    exact hs ha
  · rw [Isa.contents_read]

theorem filterMap_singleton {α β : Type} (f : α → Option β) (a : α) : [a].filterMap f = (f a).toList := by
  cases hf : f a <;> simp [hf]

theorem getLast?_append_toList {α : Type} (l : List α) (o : Option α) : (l ++ o.toList).getLast? = o.or l.getLast? := by
  cases o <;> simp

theorem mmioReq_bare (hb : Soc.Bare x.soc) : mmioReq x =
    ⟨x.soc.pipe.valid && Fabric.dmIsMmio x.soc.pipe.req.addr, x.soc.pipe.req.addr, x.soc.pipe.req.wen,
      x.soc.pipe.req.wdata, x.soc.pipe.req.wmask⟩ := by
  rw [mmioReq, dmReq_bare hb]

/-- Without a request to take, the console port keeps the exit code alone. -/
theorem mmio_idle (h : ((mmioReq x).valid && Mmio.reqReady (mmioReq x) i.consoleReady) = false) :
    (step x i).mmio = { x.mmio with consoleValid := false, rspValid := false, rspFault := false } := by
  show Mmio.step x.mmio (mmioReq x) i.consoleReady = _
  rw [Mmio.step, h]
  rfl

/-- A store to the console port takes effect at once. -/
theorem mmio_store (hb : Soc.Bare x.soc) (hv : x.soc.pipe.valid = true) (hw : x.soc.pipe.req.wen = true)
    (hp : IsPort x.soc.pipe.req.addr) (hr : (surroundings x i).passes (request x.soc.pipe.req) = true) :
    pulse (step x i) = (consoleOf (request x.soc.pipe.req)).toList ∧
      exitCode (step x i) = (exitOf (request x.soc.pipe.req)).or (exitCode x) ∧
      (step x i).mmio.rspValid = true ∧ (step x i).mmio.rspFault = false := by
  have hreq := mmioReq_bare hb
  have hm := (isPort_only hp).2.2.2.2
  rw [hv, hm, hw] at hreq
  have hmr : request x.soc.pipe.req = .write x.soc.pipe.req.addr x.soc.pipe.req.size x.soc.pipe.req.wdata
      x.soc.pipe.req.wmask := by
    rw [request, hw]
    rfl
  rw [hmr] at hr
  have hready : ((mmioReq x).valid && Mmio.reqReady (mmioReq x) i.consoleReady) = true := by
    rw [hreq, Mmio.reqReady, Mmio.isConsoleStore]
    rcases hp with hp | hp
    · have hr' : (x.soc.pipe.req.addr != Mmio.ADDR_CONSOLE || i.consoleReady) = true := hr
      rw [hp] at hr'
      simpa [hp] using hr'
    · rw [hp]
      rfl
  have hstep : (step x i).mmio = Mmio.accept x.mmio (mmioReq x) := by
    show Mmio.step x.mmio (mmioReq x) i.consoleReady = _
    rw [Mmio.step, hready]
    rfl
  rw [pulse, exitCode, exitCode, hstep, hmr, hreq]
  rcases hp with hp | hp
  · have hne : Mmio.ADDR_CONSOLE ≠ Mmio.ADDR_EXIT := by decide
    simp only [Mmio.accept, hp, consoleOf, exitOf, hne, if_true, if_false, true_and, Bool.true_and]
    cases x.soc.pipe.req.wmask.getLsbD 0 <;> simp
  · have hne : Mmio.ADDR_EXIT ≠ Mmio.ADDR_CONSOLE := by decide
    simp [Mmio.accept, hp, consoleOf, exitOf, hne]

end

namespace Mirrors

variable (h : Mirrors mem₀ text out s q x) (i : In)
include h

/-- A request that does not move goes nowhere, nor does a request to the SRAM go to the console port. -/
theorem mmio_unmoved (hm : q.moves (surroundings x i) = false ∨ Fabric.isSram x.soc.pipe.req.addr = true) :
    (step x i).mmio = { x.mmio with consoleValid := false, rspValid := false, rspFault := false } := by
  refine mmio_idle ?_
  rw [mmioReq_bare h.bare]
  show (x.soc.pipe.valid && Fabric.dmIsMmio x.soc.pipe.req.addr && _) = false
  cases hs : Fabric.isSram x.soc.pipe.req.addr
  · rw [hs] at hm
    have hm' : q.moves (surroundings x i) = false := by simpa using hm
    rw [h.moves] at hm'
    cases hv : x.soc.pipe.valid
    · rfl
    · rw [hv, Bool.true_and] at hm'
      have hready : Fabric.dmReqReady x.fabric (fabricIn x i) =
          if Fabric.dmIsMmio x.soc.pipe.req.addr then Mmio.reqReady (mmioReq x) i.consoleReady else false := by
        have hp : IsPort x.soc.pipe.req.addr := by
          have hf := (h.waiting_fits hv).place
          rw [addr_request, hs] at hf
          simpa using hf
        show (if Fabric.isSram (dmReq x).addr then _ else if Fabric.dmIsMmio (dmReq x).addr then
          Mmio.reqReady (mmioReq x) i.consoleReady else _) = _
        have ha : (dmReq x).addr = x.soc.pipe.req.addr := by rw [dmReq_bare h.bare]
        rw [ha, hs, (isPort_only hp).2.2.2.2]
        rfl
      rw [hready, mmioReq_bare h.bare, hv] at hm'
      cases hd : Fabric.dmIsMmio x.soc.pipe.req.addr
      · rfl
      · rw [hd] at hm'
        exact hm'
  · rw [(isSram_only hs).2.2.2.2, Bool.and_false, Bool.false_and]

/-- What is at the head of the queue when it moves. -/
theorem moved (hm : q.moves (surroundings x i) = true) : x.soc.pipe.valid = true ∧
    q.waiting = [request x.soc.pipe.req] ∧ Fits text (request x.soc.pipe.req) ∧
    (surroundings x i).passes (request x.soc.pipe.req) = true ∧
    (shows s (q.answer mem₀ (surroundings x i))).access = none := by
  have hm' := hm
  rw [h.moves, Bool.and_eq_true] at hm'
  have hw := h.waiting
  rw [hm'.1] at hw
  refine ⟨hm'.1, hw, h.waiting_fits hm'.1, ?_, ?_⟩
  · rw [Queue.moves, hw] at hm
    exact hm
  · cases ha : (shows s (q.answer mem₀ (surroundings x i))).access with
    | none => rfl
    | some a =>
        rw [(h.access_alone i ha).1] at hw
        cases hw

theorem aligned_request (hv : x.soc.pipe.valid = true) : alignWord x.soc.pipe.req.addr = x.soc.pipe.req.addr := by
  have hf := (h.waiting_fits hv).aligned
  rwa [addr_request] at hf

variable (hl : Local x)
include hl

/-- The SRAM does not make a request wait. -/
theorem not_sram_of_stuck (hm : q.moves (surroundings x i) = false) :
    ¬ (x.soc.pipe.valid = true ∧ Fabric.isSram x.soc.pipe.req.addr = true) := by
  rintro ⟨hv, hs⟩
  have hready : Fabric.dmReqReady x.fabric (fabricIn x i) = true := by
    have haddr : (dmReq x).addr = x.soc.pipe.req.addr := by rw [dmReq_bare h.bare]
    show (if Fabric.isSram (dmReq x).addr then (if Fabric.arbPickPtw (fabricIn x i) then false else true) else _) = _
    rw [haddr, hs, hl.arbPickPtw]
    rfl
  rw [h.moves, hv, hready] at hm
  cases hm

theorem settled_unmoved {done : List Access} (hset : Settled mem₀ out done x)
    (hm : q.moves (surroundings x i) = false) : Settled mem₀ (out ++ pulse x) done (step x i) where
  mem a ha := by rw [mem_step h.bare hl hset.mem h.aligned_request ha, if_neg (h.not_sram_of_stuck i hl hm)]
  printed := by
    have hp : pulse (step x i) = [] := by
      rw [pulse, h.mmio_unmoved i (.inl hm)]
      rfl
    rw [hp, List.append_nil]
    exact hset.printed
  exit := by
    rw [exitCode, h.mmio_unmoved i (.inl hm)]
    exact hset.exit

theorem settled_moved {done : List Access} (hset : Settled mem₀ out done x)
    (hm : q.moves (surroundings x i) = true) :
    Settled mem₀ (out ++ pulse x) (done ++ [request x.soc.pipe.req]) (step x i) := by
  obtain ⟨hv, -, hf, hp, -⟩ := h.moved i hm
  have hplace := hf.place
  rw [addr_request] at hplace
  have hmem : ∀ a, Fabric.isSram a = true → (step x i).fabric.sram.mem (Fabric.bWordAddr a) =
      contents mem₀ (done ++ [request x.soc.pipe.req]) a := by
    intro a ha
    rw [mem_step h.bare hl hset.mem h.aligned_request ha]
    split_ifs with hs
    · rfl
    · exact (contents_of_port (fun hs' => hs ⟨hv, hs'⟩) ha).symm
  by_cases hs : Fabric.isSram x.soc.pipe.req.addr = true
  · have hne : ∀ b, IsPort b → x.soc.pipe.req.addr ≠ b := by
      rintro b hb rfl
      rw [not_isSram_of_port hb] at hs
      cases hs
    have hc : consoleOf (request x.soc.pipe.req) = none := by
      unfold request Isa.portAccess
      split
      · exact if_neg fun hk => hne _ (.inl rfl) hk.1
      · rfl
    have he : exitOf (request x.soc.pipe.req) = none := by
      unfold request Isa.portAccess
      split
      · exact if_neg (hne _ (.inr rfl))
      · rfl
    have hmm := h.mmio_unmoved i (.inr hs)
    refine ⟨hmem, ?_, ?_⟩
    · have hp' : pulse (step x i) = [] := by
        rw [pulse, hmm]
        rfl
      rw [hp', List.filterMap_append, ← hset.printed, filterMap_singleton, hc]
      rfl
    · rw [exitCode, hmm, List.filterMap_append, filterMap_singleton, he, Option.toList_none, List.append_nil]
      exact hset.exit
  · have hport := hplace.resolve_left hs
    have hw : x.soc.pipe.req.wen = true := by
      by_contra hn
      have hstore := store_request (r := x.soc.pipe.req)
      rw [Bool.eq_false_iff.mpr hn, Option.isSome_eq_false_iff, Option.isNone_iff_eq_none] at hstore
      have hr := hf.read hstore
      rw [addr_request] at hr
      exact hs hr
    obtain ⟨hpulse, hexit, -, -⟩ := mmio_store h.bare hv hw hport hp
    refine ⟨hmem, ?_, ?_⟩
    · rw [hpulse, List.filterMap_append, ← hset.printed, filterMap_singleton]
    · rw [hexit, List.filterMap_append, filterMap_singleton, getLast?_append_toList, hset.exit]

theorem settled_step : ∃ done,
    (q.next (surroundings x i) (shows s (q.answer mem₀ (surroundings x i)))).log =
      done ++ (q.next (surroundings x i) (shows s (q.answer mem₀ (surroundings x i)))).waiting ∧
    Settled mem₀ (out ++ pulse x) done (step x i) := by
  obtain ⟨done, hlog, hset⟩ := h.settled
  cases hm : q.moves (surroundings x i)
  · refine ⟨done, ?_, h.settled_unmoved i hl hset hm⟩
    show q.log ++ _ = done ++ ((if q.moves (surroundings x i) then _ else q.waiting) ++ _)
    rw [hm, hlog, List.append_assoc]
    rfl
  · obtain ⟨-, hw, -, -, hacc⟩ := h.moved i hm
    refine ⟨done ++ [request x.soc.pipe.req], ?_, h.settled_moved i hl hset hm⟩
    show q.log ++ _ =
      done ++ [request x.soc.pipe.req] ++ ((if q.moves (surroundings x i) then q.waiting.tail else _) ++ _)
    rw [hm, hlog, hw, hacc]
    simp

/-! ## One clock edge -/

variable (hfetch : ifetchReqValid s (ext x) = true → text (alignWord s.fetch.pc))
  (hfits : ∀ a, (shows s (q.answer mem₀ (surroundings x i))).access = some a → Fits text a)
include hfits

omit hl in
theorem fits_step : ∀ a ∈ (q.next (surroundings x i) (shows s (q.answer mem₀ (surroundings x i)))).log,
    Fits text a := by
  intro a ha
  rcases List.mem_append.mp ha with ha | ha
  · exact h.fits a ha
  · exact hfits a (by simpa using ha)

include hfetch

theorem answering_step : Answering mem₀
    (q.next (surroundings x i) (shows s (q.answer mem₀ (surroundings x i)))) (step x i) := by
  have hans : (q.next (surroundings x i) (shows s (q.answer mem₀ (surroundings x i)))).answering =
      if q.moves (surroundings x i) then q.waiting.head? else none := rfl
  have hvalid : (step x i).fabric.sram.bRspValid =
      (x.soc.pipe.valid && Fabric.isSram x.soc.pipe.req.addr) := by
    show (Fabric.sramNext x.fabric (fabricIn x i)).bRspValid = _
    rw [Fabric.sramNext, hl.sramBReq, dmReq_bare h.bare]
    dsimp only
    split_ifs with hv hw <;> simp [hv]
  have hfx : (shows s (q.answer mem₀ (surroundings x i))).fetch =
      if ifetchReqValid s (ext x) then some s.fetch.pc else none := by
    show (if ifetchReqValid s (ext x) && true then _ else _) = _
    rw [Bool.and_true]
  have hfv : sramAReqValid x = ifetchReqValid s (ext x) := by
    have hr := ifReqValid_bare h.bare
    rw [h.ifetchReqValid_core] at hr
    rw [sramAReqValid, hr]
    cases hv : ifetchReqValid s (ext x)
    · rfl
    · rw [hl.fetch (hr.trans hv)]
      rfl
  have hfetching : (q.next (surroundings x i) (shows s (q.answer mem₀ (surroundings x i)))).fetching =
      if ifetchReqValid s (ext x) then some s.fetch.pc else none := hfx
  have hword : ∀ pc, (q.next (surroundings x i) (shows s (q.answer mem₀ (surroundings x i)))).fetching = some pc →
      (step x i).aRspRdata =
        contents mem₀ (q.next (surroundings x i) (shows s (q.answer mem₀ (surroundings x i)))).log pc := by
    intro pc hpc
    rw [hfetching] at hpc
    split_ifs at hpc with hv
    cases hpc
    obtain ⟨done, hlog, hset⟩ := h.settled
    have hdone : ∀ a ∈ done, Fits text a := fun a ha => h.fits a (by rw [hlog]; simp [ha])
    have hsite : Fabric.isSram s.fetch.pc = true := by
      have hs := hl.fetch (show ifReqValid x = true by rw [ifReqValid_bare h.bare, h.ifetchReqValid_core, hv])
      rwa [ifReqAddr_bare h.bare, h.core_fields.1] at hs
    show (if sramAReqValid x then x.fabric.sram.mem (Fabric.bWordAddr (ifReqAddr x)) else x.aRspRdata) = _
    rw [hfv, if_pos hv, ifReqAddr_bare h.bare, h.core_fields.1, hset.mem _ hsite, contents_text hdone (hfetch hv),
      contents_text (h.fits_step i hfits) (hfetch hv)]
  have hfs : (step x i).aRspValid = (q.next (surroundings x i)
      (shows s (q.answer mem₀ (surroundings x i)))).fetching.isSome := by
    rw [hfetching]
    show sramAReqValid x = _
    rw [hfv]
    cases ifetchReqValid s (ext x) <;> rfl
  cases hm : q.moves (surroundings x i)
  · have hstuck := h.not_sram_of_stuck i hl hm
    rw [hm] at hans
    have hans' : (q.next (surroundings x i) (shows s (q.answer mem₀ (surroundings x i)))).answering = none := hans
    refine ⟨?_, fun a ha => ?_, ?_, ?_, hfs, hword⟩
    · rw [hvalid, hans']
      simpa using hstuck
    · rw [hans'] at ha
      cases ha
    · rw [h.mmio_unmoved i (.inl hm), hans']
      rfl
    · rw [h.mmio_unmoved i (.inl hm)]
  · obtain ⟨hv, hw, hf, hp, hacc⟩ := h.moved i hm
    rw [hm, hw] at hans
    have hans' : (q.next (surroundings x i) (shows s (q.answer mem₀ (surroundings x i)))).answering =
        some (request x.soc.pipe.req) := hans
    rw [hv, Bool.true_and] at hvalid
    have hmm : (step x i).mmio.rspValid = (!Fabric.isSram x.soc.pipe.req.addr) ∧
        (step x i).mmio.rspFault = false := by
      cases hs : Fabric.isSram x.soc.pipe.req.addr
      · have hport : IsPort x.soc.pipe.req.addr := by
          have hplace := hf.place
          rw [addr_request, hs] at hplace
          simpa using hplace
        have hwen : x.soc.pipe.req.wen = true := by
          by_contra hn
          have hstore := store_request (r := x.soc.pipe.req)
          rw [Bool.eq_false_iff.mpr hn, Option.isSome_eq_false_iff, Option.isNone_iff_eq_none] at hstore
          have hr := hf.read hstore
          rw [addr_request, hs] at hr
          cases hr
        obtain ⟨-, -, h₁, h₂⟩ := mmio_store h.bare hv hwen hport hp
        exact ⟨h₁, h₂⟩
      · rw [h.mmio_unmoved i (.inr hs)]
        exact ⟨rfl, rfl⟩
    refine ⟨?_, fun a ha hstore => ?_, ?_, hmm.2, hfs, hword⟩
    · rw [hvalid, hans', Option.any_some, addr_request]
    · rw [hans'] at ha
      cases ha
      have hwen : x.soc.pipe.req.wen = false := by
        rw [← store_request, hstore]
        rfl
      have hs : Fabric.isSram x.soc.pipe.req.addr = true := by
        have hr := hf.read hstore
        rwa [addr_request] at hr
      obtain ⟨done, hlog, hset⟩ := h.settled
      have hlog' : (q.next (surroundings x i) (shows s (q.answer mem₀ (surroundings x i)))).log =
          done ++ [request x.soc.pipe.req] := by
        show q.log ++ (shows s (q.answer mem₀ (surroundings x i))).access.toList = _
        rw [hacc, hlog, hw]
        simp
      have hreq : request x.soc.pipe.req = .read x.soc.pipe.req.addr x.soc.pipe.req.size := by
        rw [request, hwen]
        rfl
      rw [hlog', addr_request, hreq, Isa.contents_read, ← hset.mem _ hs]
      show (Fabric.sramNext x.fabric (fabricIn x i)).bRspRdata = _
      rw [Fabric.sramNext, hl.sramBReq, dmReq_bare h.bare, hv, hs, hwen]
      rfl
    · rw [hmm.1, hans', Option.any_some, addr_request]

omit hl in
/-- The relation is kept, cycle by cycle. -/
theorem step (htext : ∀ a, text a → Fabric.isSram a = true) (hsp : CorePipeline.Spaced s)
    (hw : CorePipeline.wbRedirect s = false) (hc : CorePipeline.csrEnWb s = false) :
    Mirrors mem₀ text (out ++ pulse x) (CorePipeline.step s (q.answer mem₀ (surroundings x i)))
      (q.next (surroundings x i) (shows s (q.answer mem₀ (surroundings x i)))) (SocTop.step x i) := by
  have hl := h.onSite htext hfetch
  have hcore : CorePipeline.wbRedirect x.soc.core = false ∧ CorePipeline.csrEnWb x.soc.core = false := by
    obtain ⟨⟨y, z, hs⟩, -, -⟩ := h.alike
    rw [hs]
    exact ⟨hw, hc⟩
  have hnext : ∀ a, (a ∈ (q.next (surroundings x i) (shows s (q.answer mem₀ (surroundings x i)))).waiting ∨
      (q.next (surroundings x i) (shows s (q.answer mem₀ (surroundings x i)))).answering = some a) →
      a ∈ q.waiting ∨ (shows s (q.answer mem₀ (surroundings x i))).access = some a := by
    intro a ha
    have hkeep : a ∈ (if q.moves (surroundings x i) then q.waiting.tail else q.waiting) → a ∈ q.waiting := by
      split
      · exact List.mem_of_mem_tail
      · exact id
    rcases ha with ha | ha
    · rcases List.mem_append.mp ha with ha | ha
      · exact .inl (hkeep ha)
      · exact .inr (by simpa using ha)
    · have ha' : (if q.moves (surroundings x i) then q.waiting.head? else none) = some a := ha
      split_ifs at ha'
      exact .inl (List.mem_of_mem_head? ha')
  have hpend : ∀ a, (a ∈ q.waiting ∨ (shows s (q.answer mem₀ (surroundings x i))).access = some a) →
      q.waiting ≠ [] ∨ (shows s (q.answer mem₀ (surroundings x i))).access ≠ none := by
    rintro a (ha | ha)
    · exact .inl (List.ne_nil_of_mem ha)
    · exact .inr (by rw [ha]; exact Option.some_ne_none a)
  refine ⟨?_, ?_, ?_, h.fits_step i hfits, h.waiting_step i, fun ha => ?_, fun {a} ha => ?_, fun hp => ?_,
    fun a ha => ?_, h.settled_step i hl, h.answering_step i hl hfetch hfits⟩
  · exact CorePipeline.alike_step hsp h.alike (h.alikeIn htext hfetch i)
  · exact h.bare.step hcore.1 hcore.2
  · exact hl.step h.quiet
  · have hm : q.moves (surroundings x i) = true := by
      by_contra hn
      have ha' : (if q.moves (surroundings x i) then q.waiting.head? else none).isSome = true := ha
      rw [if_neg hn] at ha'
      cases ha'
    obtain ⟨-, hwt, -, -, hacc⟩ := h.moved i hm
    show (if q.moves (surroundings x i) then q.waiting.tail else q.waiting) ++ _ = []
    rw [hm, hwt, hacc]
    rfl
  · show a ∈ q.log ++ _
    have hin : a ∈ q.waiting := by
      have ha' : (if q.moves (surroundings x i) then q.waiting.head? else none) = some a := ha
      split_ifs at ha'
      exact List.mem_of_mem_head? ha'
    obtain ⟨done, hlog, -⟩ := h.settled
    rw [hlog]
    simp [hin]
  · have hex : ∃ a, a ∈ (q.next (surroundings x i) (shows s (q.answer mem₀ (surroundings x i)))).waiting ∨
        (q.next (surroundings x i) (shows s (q.answer mem₀ (surroundings x i)))).answering = some a := by
      rcases hp with hp | hp
      · obtain ⟨a, ha⟩ := List.exists_mem_of_ne_nil _ hp
        exact ⟨a, .inl ha⟩
      · obtain ⟨a, ha⟩ := Option.isSome_iff_exists.mp hp
        exact ⟨a, .inr ha⟩
    obtain ⟨a, ha⟩ := hex
    exact (h.held i hsp hw (hpend a (hnext a ha))).2
  · have hm := (h.held i hsp hw (hpend a (hnext a ha))).1
    have hwen : dmemReqWen (CorePipeline.step s (q.answer mem₀ (surroundings x i))) = dmemReqWen s := by
      unfold dmemReqWen CorePipeline.memIsStoreOp CorePipeline.memAmoStoreBeat
      rw [hm]
    rw [hwen]
    rcases hnext a ha with ha | ha
    · exact h.beat a (.inl ha)
    · obtain ⟨-, -, -, rfl⟩ := h.access_alone i ha
      rw [store_request, h.core_fields.2.2.2.2]

end Mirrors

/-- The instruction in WB is behind all accesses that the chip has taken. -/
theorem Mirrors.quiescent (h : Mirrors mem₀ text out s q x) (hsp : CorePipeline.Spaced s) (hv : s.wb.valid = true) :
    Settled mem₀ out q.log x := by
  have hf : s.bus.reqFired = false := by
    cases hm : s.mem.valid
    · by_contra hf
      have hb := hsp.fired_busy (by simpa using hf)
      simp [CorePipeline.memBusy, hm] at hb
    · exact hsp.unfired_behind_wb hm hv
  obtain ⟨done, hlog, hset⟩ := h.settled
  have hw : q.waiting = [] := by
    by_contra hw
    rw [h.fired (.inl hw)] at hf
    cases hf
  rwa [hlog, hw, List.append_nil]

/-! ## Reset -/

theorem mirrors_reset (pc : Word) (u : Unreset)
    (hmem : ∀ a, Fabric.isSram a = true → u.mem (Fabric.bWordAddr a) = contents mem₀ [] a) :
    Mirrors mem₀ text [] (CorePipeline.reset pc u.regs) .empty (reset pc u) where
  alike := Alike.refl _
  bare := Soc.bare_reset _ _ _
  quiet := quiet_reset _ _
  fits a ha := by cases ha
  waiting := rfl
  single _ := rfl
  logged ha := by cases ha
  fired hp := by rcases hp with hp | hp <;> simp [Queue.empty] at hp
  beat a ha := by rcases ha with ha | ha <;> cases ha
  settled := ⟨[], rfl, hmem, rfl, rfl⟩
  answering := ⟨rfl, nofun, rfl, rfl, rfl, nofun⟩

end QinglongCore.SocTop
