import QinglongCore.Isa.Alignment
import QinglongCore.Isa.ByteLanes
import QinglongCore.Pipeline.Lemmas.Values
import QinglongCore.Rtl.SramDp

/-!
# Loads and stores as accesses of a memory of bytes

The core asks for the word around an address, with the lanes of a store in place, and takes the value of a load out of
the word it is answered with. With `sram_dp` at the other end of its data bus, these are the reads and the writes of a
little-endian memory of bytes.
-/

namespace QinglongCore.CorePipeline

open SramDp (addrBits wordAddr)

/-- A load or a store of one of the base instructions. -/
def IdEx.IsTransfer (ex : IdEx) : Prop :=
  ex.ctrl.isLoad = true ∧ Isa.Loads ex.funct3 ∨ ex.ctrl.isStore = true ∧ Isa.Stores ex.funct3

theorem IdEx.IsTransfer.access {ex : IdEx} (h : ex.IsTransfer) : (ex.ctrl.isLoad || ex.ctrl.isStore) = true := by
  rw [Bool.or_eq_true]
  exact h.imp And.left And.left

theorem IdEx.Decoded.not_atomic {ex : IdEx} (hd : ex.Decoded) (h : (ex.ctrl.isLoad || ex.ctrl.isStore) = true) :
    ex.ctrl.isLr = false ∧ ex.ctrl.isSc = false ∧ ex.ctrl.isAmoRmw = false := by
  obtain ⟨id, m, d₁, d₂, rfl, -⟩ := hd
  exact Decode.not_atomic_of_access h

theorem IdEx.Decoded.isStore_of_isLoad {ex : IdEx} (hd : ex.Decoded) (h : ex.ctrl.isLoad = true) :
    ex.ctrl.isStore = false := by
  obtain ⟨id, m, d₁, d₂, rfl, -⟩ := hd
  exact Decode.isStore_of_isLoad h

/-- The core while MEM asks for an aligned load or store, which left EX from `ex` with these operands. -/
structure Transfer where
  core : State
  ex : IdEx
  rs1 : Word
  rs2 : Word
  decoded : ex.Decoded
  entered : ∃ dv hit ph, core.mem = { ExMem.ofEx ex rs1 rs2 dv none hit with amoPhase := ph }
  asks : dmemReqValid core = true
  kind : ex.IsTransfer
  aligned : Isa.width ex.funct3 ∣ (ex.lsAddr rs1).toNat

namespace Transfer

variable (x : Transfer)

def addr : Word := x.ex.lsAddr x.rs1
def width : Nat := Isa.width x.ex.funct3
def isStore : Bool := x.ex.ctrl.isStore

/-- `dmem_req_*`. -/
def req : Axi4Master.Req where
  valid := dmemReqValid x.core
  addr := dmemReqAddr x.core
  wen := dmemReqWen x.core
  wdata := dmemReqWdata x.core
  wmask := dmemReqWmask x.core

/-- `load_aligned`, when the answer is `rdata`. -/
def value (rdata : Word) : Word := loadAligned x.core.mem.funct3 x.core.mem.aluY rdata

/-! ### What is asked for -/

theorem addr_aligned : Isa.width x.ex.funct3 ∣ x.addr.toNat := x.aligned

theorem kind_of_store (h : x.isStore = true) : Isa.Stores x.ex.funct3 := by
  rcases x.kind with hk | hk
  · have hn := x.decoded.isStore_of_isLoad hk.1
    rw [isStore, hn] at h
    exact absurd h Bool.false_ne_true
  · exact hk.2

theorem mem_flags : x.core.mem.isStore = x.isStore ∧ x.core.mem.isSc = false ∧ x.core.mem.isAmoRmw = false ∧
    x.core.mem.isLr = false := by
  obtain ⟨dv, hit, ph, hm⟩ := x.entered
  obtain ⟨hlr, hsc, hamo⟩ := x.decoded.not_atomic x.kind.access
  rw [hm]
  refine ⟨Bool.and_true _, ?_, ?_, ?_⟩
  · exact (Bool.and_true _).trans hsc
  · exact (Bool.and_true _).trans hamo
  · exact (Bool.and_true _).trans hlr

theorem mem_addr : x.core.mem.aluY = x.addr ∧ x.core.mem.funct3 = x.ex.funct3 := by
  obtain ⟨dv, hit, ph, hm⟩ := x.entered
  have hk : (x.ex.ctrl.isLoad || x.ex.ctrl.isStore || x.ex.isAtomic) = true := by rw [x.kind.access, Bool.true_or]
  rw [hm]
  exact ⟨if_pos hk, rfl⟩

theorem mem_lanes : x.core.mem.storeWdata = Isa.laneData x.ex.funct3 x.addr x.rs2 ∧
    x.core.mem.storeWmask = Isa.laneMask x.ex.funct3 x.addr := by
  obtain ⟨dv, hit, ph, hm⟩ := x.entered
  rw [hm]
  exact ⟨rfl, rfl⟩

theorem req_wen : x.req.wen = x.isStore := by
  obtain ⟨hst, hsc, hamo, -⟩ := x.mem_flags
  simp [req, dmemReqWen, memIsStoreOp, memAmoStoreBeat, hst, hsc, hamo]

theorem req_addr : x.req.addr = alignWord x.addr := congrArg alignWord x.mem_addr.1

theorem req_lanes (h : x.isStore = true) : x.req.wdata = Isa.laneData x.ex.funct3 x.addr x.rs2 ∧
    x.req.wmask = Isa.laneMask x.ex.funct3 x.addr := by
  obtain ⟨hst, hsc, hamo, -⟩ := x.mem_flags
  rw [h] at hst
  simp [req, dmemReqWdata, dmemReqWmask, memIsStoreOp, memAmoStoreBeat, hst, hsc, hamo, x.mem_lanes]

theorem value_eq (r : Word) : x.value r = Isa.loadValue x.ex.funct3 x.addr r := by
  rw [value, x.mem_addr.1, x.mem_addr.2]
  rfl

end Transfer

/-! ## The array as bytes -/

variable {words : Nat}

/-- The place of an address in the array: `sram_dp` reads no higher address bits. -/
def byteAddr (words : Nat) (a : Word) : Nat := a.toNat % (4 * 2 ^ addrBits words)

/-- The bytes of the array, the lowest lane of a word first. -/
def bytes (mem : Fin words → Word) (b : Nat) : BitVec 8 :=
  if h : b / 4 < words then Isa.byteAt (mem ⟨b / 4, h⟩) (b % 4) else 0#8

theorem byteAddr_eq (a : Word) : byteAddr words a = 4 * wordAddr words a + Isa.lane a := by
  rw [byteAddr, Nat.mod_mul, wordAddr, Isa.lane, Nat.add_comm]

theorem alignWord_toNat_div (a : Word) : (alignWord a).toNat / 4 = a.toNat / 4 := by
  have hlt : a.toNat / 4 < 2 ^ 30 := by omega
  calc (alignWord a).toNat / 4 = a.toNat / 4 &&& (2 ^ 30 - 1) := Nat.and_div_two_pow (n := 2)
    _ = a.toNat / 4 % 2 ^ 30 := Nat.and_two_pow_sub_one_eq_mod _ 30
    _ = a.toNat / 4 := Nat.mod_eq_of_lt hlt

theorem wordAddr_alignWord (a : Word) : wordAddr words (alignWord a) = wordAddr words a := by
  rw [wordAddr, alignWord_toNat_div, wordAddr]

theorem bytes_word (mem : Fin words → Word) (n : Fin words) {k : Nat} (hk : k < 4) :
    bytes mem (4 * n.val + k) = Isa.byteAt (mem n) k := by
  have hd : (4 * n.val + k) / 4 = n.val := by omega
  have hm : (4 * n.val + k) % 4 = k := by omega
  have hn : (4 * n.val + k) / 4 < words := by rw [hd]; exact n.isLt
  rw [bytes, dif_pos hn, hm]
  exact congrArg (fun l => Isa.byteAt (mem l) k) (Fin.ext hd)

/-- The access stores byte `b` of a memory that has the address `a` at `place a`. -/
def Transfer.Writes (place : Word → Nat) (x : Transfer) (b : Nat) : Prop :=
  x.isStore = true ∧ place x.addr ≤ b ∧ b < place x.addr + x.width

instance (place : Word → Nat) (x : Transfer) : DecidablePred (x.Writes place) := fun b =>
  inferInstanceAs (Decidable (x.isStore = true ∧ place x.addr ≤ b ∧ b < place x.addr + x.width))

theorem Transfer.write_eq {x : Transfer} (place : Word → Nat) (hs : x.isStore = true) (m : Nat → BitVec 8) (b : Nat) :
    ByteMemory.write m (place x.addr) x.width x.rs2 b =
      if x.Writes place b then x.rs2.extractLsb' (8 * (b - place x.addr)) 8 else m b := by
  simp only [ByteMemory.write, Writes, hs, true_and]

theorem bytes_step_store {x : Transfer} {s : SramDp.State words} {i : SramDp.In} (hi : i.bReq = x.req)
    (hs : x.isStore = true) {b : Nat} (hb : b < 4 * words) : bytes (SramDp.step s i).mem b =
      ByteMemory.write (bytes s.mem) (byteAddr words x.addr) x.width x.rs2 b := by
  obtain ⟨n, k, hk, rfl⟩ : ∃ n k, k < 4 ∧ b = 4 * n + k := ⟨b / 4, b % 4, by omega, by omega⟩
  have hn : n < words := by omega
  have hv : i.bReq.valid = true := by
    rw [hi]
    exact x.asks
  have hw : i.bReq.wen = true := by rw [hi, x.req_wen, hs]
  have hlane : Isa.lane x.addr + x.width ≤ 4 := Isa.lane_add_width x.addr_aligned
  rw [bytes_word _ ⟨n, hn⟩ hk, SramDp.step_write hv hw, hi, x.req_addr, wordAddr_alignWord, byteAddr_eq]
  obtain ⟨hd, hm⟩ := x.req_lanes hs
  by_cases h : n = wordAddr words x.addr
  · rw [if_pos h, hd, hm, Isa.byteAt_mergeBytes hk (x.kind_of_store hs) x.addr_aligned, ← h, ByteMemory.write_add]
    exact ByteMemory.write_congr (bytes_word _ ⟨n, hn⟩ hk).symm _ _ _
  · rw [if_neg h, ByteMemory.write_out]
    · exact (bytes_word _ ⟨n, hn⟩ hk).symm
    · omega

/-! ## Accesses in a row -/

section

variable (acc : Nat → Option Transfer) (lines : Nat → SramDp.In)

/-- Port B is the core's in the cycles in which it asks, and idle in the others. The other lines are arbitrary. -/
def ports (t : Nat) : SramDp.In :=
  { lines t with
    bReq :=
      match acc t with
      | some x => x.req
      | none => { (lines t).bReq with valid := false } }

abbrev sram (s₀ : SramDp.State words) : Nat → SramDp.State words := Sync.run SramDp.step s₀ (ports acc lines)

/-- The bytes that the stores before cycle `t` leave behind: of each the last one stored, or the initial one. -/
def memory (place : Word → Nat) (m₀ : Nat → BitVec 8) : Nat → Nat → BitVec 8
  | 0 => m₀
  | t + 1 =>
      match acc t with
      | some x =>
          if x.isStore then ByteMemory.write (memory place m₀ t) (place x.addr) x.width x.rs2
          else memory place m₀ t
      | none => memory place m₀ t

variable {acc lines} {s₀ : SramDp.State words} {place : Word → Nat} {t : Nat} {x : Transfer}

theorem ports_some (lines : Nat → SramDp.In) (hx : acc t = some x) : (ports acc lines t).bReq = x.req := by
  unfold ports
  rw [hx]

theorem memory_store (m₀ : Nat → BitVec 8) (hx : acc t = some x) (hs : x.isStore = true) :
    memory acc place m₀ (t + 1) = ByteMemory.write (memory acc place m₀ t) (place x.addr) x.width x.rs2 := by
  simp only [memory, hx, hs, if_true]

theorem stores_or_not (acc : Nat → Option Transfer) (t : Nat) :
    (∃ x, acc t = some x ∧ x.isStore = true) ∨ ∀ x, acc t = some x → x.isStore = false := by
  by_cases h : ∃ x, acc t = some x ∧ x.isStore = true
  · exact .inl h
  · refine .inr fun x hx => ?_
    cases hs : x.isStore
    · rfl
    · exact absurd ⟨x, hx, hs⟩ h

/-- Without a store the array stays. -/
theorem sram_mem (h : ∀ x, acc t = some x → x.isStore = false) :
    (sram acc lines s₀ (t + 1)).mem = (sram acc lines s₀ t).mem := by
  apply SramDp.step_mem
  cases hx : acc t with
  | none =>
      unfold ports
      rw [hx]
      rfl
  | some x => rw [ports_some lines hx, x.req_wen, h x hx, Bool.and_false]

theorem memory_stays (m₀ : Nat → BitVec 8) (h : ∀ x, acc t = some x → x.isStore = false) :
    memory acc place m₀ (t + 1) = memory acc place m₀ t := by
  cases hx : acc t with
  | none => simp only [memory, hx]
  | some x => simp only [memory, hx, h x hx, Bool.false_eq_true, if_false]

/-- A byte that no access stores stays. -/
theorem memory_frame (m₀ : Nat → BitVec 8) {u b : Nat} (hut : u ≤ t)
    (h : ∀ v, u ≤ v → v < t → ∀ y, acc v = some y → ¬y.Writes place b) :
    memory acc place m₀ t b = memory acc place m₀ u b := by
  induction t, hut using Nat.le_induction with
  | base => rfl
  | succ t hut ih =>
      have hprev := ih fun v hu hv => h v hu (by omega)
      rw [← hprev]
      rcases stores_or_not acc t with ⟨y, hy, hs⟩ | hst
      · rw [memory_store _ hy hs, Transfer.write_eq place hs]
        exact if_neg (h t hut (Nat.lt_succ_self t) y hy)
      · rw [memory_stays _ hst]

/-- A byte is the one that was stored there last. -/
theorem memory_last (m₀ : Nat → BitVec 8) {u b : Nat} (hut : u < t) (hx : acc u = some x) (hb : x.Writes place b)
    (h : ∀ v, u < v → v < t → ∀ y, acc v = some y → ¬y.Writes place b) :
    memory acc place m₀ t b = x.rs2.extractLsb' (8 * (b - place x.addr)) 8 := by
  rw [memory_frame m₀ hut fun v hu => h v hu, memory_store _ hx hb.1, Transfer.write_eq place hb.1, if_pos hb]

/-- A byte that was not stored yet is the initial one. -/
theorem memory_initial (m₀ : Nat → BitVec 8) {b : Nat}
    (h : ∀ v, v < t → ∀ y, acc v = some y → ¬y.Writes place b) : memory acc place m₀ t b = m₀ b :=
  memory_frame m₀ (Nat.zero_le t) fun v _ => h v

/-- The array holds the bytes of the memory, in every cycle. -/
theorem bytes_sram (t : Nat) {b : Nat} (hb : b < 4 * words) :
    bytes (sram acc lines s₀ t).mem b = memory acc (byteAddr words) (bytes s₀.mem) t b := by
  induction t with
  | zero => rfl
  | succ t ih =>
      rcases stores_or_not acc t with ⟨x, hx, hs⟩ | h
      · have hstep := bytes_step_store (s := sram acc lines s₀ t) (ports_some lines hx) hs hb
        rw [memory_store _ hx hs]
        exact hstep.trans (ByteMemory.write_congr ih _ _ _)
      · rw [sram_mem h, memory_stays _ h]
        exact ih

theorem ports_valid (lines : Nat → SramDp.In) (hx : acc t = some x) : (ports acc lines t).bReq.valid = true := by
  rw [ports_some lines hx]
  exact x.asks

/-- A load takes the word of its address out of the array. -/
theorem sram_rdata (lines : Nat → SramDp.In) (s₀ : SramDp.State words) (hx : acc t = some x) (hl : x.isStore = false)
    (hin : wordAddr words x.addr < words) :
    (sram acc lines s₀ (t + 1)).bRspRdata = (sram acc lines s₀ t).mem ⟨wordAddr words x.addr, hin⟩ := by
  have hreq := ports_some lines hx
  have hw : (ports acc lines t).bReq.wen = false := by rw [hreq, x.req_wen, hl]
  apply (SramDp.step_read (ports_valid lines hx) hw).trans
  rw [hreq, x.req_addr, wordAddr_alignWord]
  exact dif_pos hin

theorem value_load (lines : Nat → SramDp.In) (s₀ : SramDp.State words) (hx : acc t = some x) (hl : x.isStore = false)
    (hin : wordAddr words x.addr < words) : x.value (sram acc lines s₀ (t + 1)).bRspRdata =
      Isa.loaded (memory acc (byteAddr words) (bytes s₀.mem) t) x.ex.funct3 (byteAddr words x.addr) := by
  rw [x.value_eq, sram_rdata lines s₀ hx hl hin, byteAddr_eq]
  refine Isa.loadValue_eq_loaded x.addr_aligned fun k hk => ?_
  rw [← bytes_sram t (by omega), bytes_word _ ⟨_, hin⟩ hk]

/-- An access is answered in the next cycle. The value of a load is the number whose bytes were last stored at its
address, and a store changes its own bytes and no others. -/
theorem loads_and_stores (acc : Nat → Option Transfer) (lines : Nat → SramDp.In) (s₀ : SramDp.State words)
    (hx : acc t = some x) :
    (sram acc lines s₀ (t + 1)).bRspValid = true ∧
    (x.isStore = false → wordAddr words x.addr < words →
      x.value (sram acc lines s₀ (t + 1)).bRspRdata =
        Isa.loaded (memory acc (byteAddr words) (bytes s₀.mem) t) x.ex.funct3 (byteAddr words x.addr)) ∧
    (∀ b, b < 4 * words → bytes (sram acc lines s₀ (t + 1)).mem b =
      if x.Writes (byteAddr words) b then x.rs2.extractLsb' (8 * (b - byteAddr words x.addr)) 8
      else bytes (sram acc lines s₀ t).mem b) := by
  refine ⟨ports_valid lines hx, value_load lines s₀ hx, fun b hb => ?_⟩
  cases hs : x.isStore
  · have hn : ¬x.Writes (byteAddr words) b := fun h => Bool.false_ne_true (hs.symm.trans h.1)
    rw [if_neg hn, sram_mem]
    intro y hy
    rw [← Option.some.inj (hx.symm.trans hy), hs]
  · rw [← Transfer.write_eq (byteAddr words) hs]
    exact bytes_step_store (ports_some lines hx) hs hb

end

/-! ## The accesses of a run -/

/-- What EX does not find misaligned has an address of its size. -/
theorem IdEx.aligned_of_lsMisaligned {ex : IdEx} {rs1 : Word} (hv : ex.valid = true) (ha : ex.isAtomic = false)
    (hk : ex.IsTransfer) (h : ex.lsMisaligned rs1 = false) : Isa.width ex.funct3 ∣ (ex.lsAddr rs1).toNat := by
  -- a store has the code of the load of its size
  have hf : Isa.Loads ex.funct3 := by
    rcases hk with hk | ⟨-, hst | hst | hst⟩
    · exact hk.2
    · exact .inl hst
    · exact .inr (.inl hst)
    · exact .inr (.inr (.inl hst))
  have hhalf (hb : (ex.lsAddr rs1).getLsbD 0 = false) : 2 ∣ (ex.lsAddr rs1).toNat := by
    rw [← BitVec.testBit_toNat, Nat.testBit_zero, decide_eq_false_iff_not] at hb
    omega
  simp only [lsMisaligned, hv, ha, hk.access, Bool.and_self, Bool.and_false, Bool.false_eq_true, if_true, if_false] at h
  rcases hf with hf | hf | hf | hf | hf
  · rw [hf]
    exact Nat.one_dvd _
  · rw [if_pos (.inl hf)] at h
    rw [hf]
    exact hhalf h
  · rw [hf] at h ⊢
    exact Isa.aligned_of_lowBits h
  · rw [hf]
    exact Nat.one_dvd _
  · rw [if_pos (.inr (.inl hf))] at h
    rw [hf]
    exact hhalf h

/-- Every load or store that the core asks for is such an access. -/
theorem transfer_of_run {pc : Word} {regs : RegFile} {inp : Nat → In} {t : Nat}
    (hr : dmemReqValid (run pc regs inp t) = true)
    (hk : (run pc regs inp t).mem.isLoad = true ∧ Isa.Loads (run pc regs inp t).mem.funct3 ∨
      (run pc regs inp t).mem.isStore = true ∧ Isa.Stores (run pc regs inp t).mem.funct3) :
    ∃ x : Transfer, x.core = run pc regs inp t := by
  generalize hs : run pc regs inp t = s at hr hk
  have hsp : Spaced s := hs ▸ spaced_run t
  have hbusy : s.mem.valid = true ∧ s.mem.lsPending = true := by
    simp only [dmemReqValid, Bool.and_eq_true] at hr
    exact ⟨hr.1.1.1, hr.1.2⟩
  obtain ⟨ex, rs1, rs2, dv, p, hit, ph, ls, hd, hv, hm, hl⟩ := hsp.mem_origin hbusy.1
  have hls : ls = true := by
    rw [← hbusy.2, hm]
  have hpend := hl hls
  cases ht : ex.trapInfo rs1 rs2 p with
  | some c =>
      rw [ht] at hpend
      exact absurd hpend Bool.false_ne_true
  | none =>
      rw [ht] at hm hpend
      have hentered : s.mem = { ExMem.ofEx ex rs1 rs2 dv none hit with amoPhase := ph } := by
        rw [hm, hls, ← hpend]
      have hkind : ex.IsTransfer := by
        rw [hm] at hk
        exact hk.imp (.imp_left (Bool.and_true _).symm.trans) (.imp_left (Bool.and_true _).symm.trans)
      obtain ⟨hlr, hsc, hamo⟩ := hd.not_atomic hkind.access
      have hatomic : ex.isAtomic = false := by rw [IdEx.isAtomic, hlr, hsc, hamo, Bool.or_self, Bool.or_self]
      refine ⟨⟨s, ex, rs1, rs2, hd, ⟨dv, hit, ph, hentered⟩, hr, hkind, ?_⟩, rfl⟩
      apply IdEx.aligned_of_lsMisaligned hv hatomic hkind
      apply IdEx.aligned_of_no_trap hv ht
      rw [hkind.access, Bool.true_or, Bool.true_or, Bool.true_or]

/-- The answer to a load goes to WB as its value. -/
theorem Transfer.captured {x : Transfer} {s : State} {i : In} (hm : s.mem = x.core.mem) (hw : wbRedirect s = false)
    (hv : i.dmemRspValid = true) : (busNext s i).loadData = x.value i.dmemRspRdata := by
  obtain ⟨-, -, hamo, hlr⟩ := x.mem_flags
  have hask := x.asks
  simp only [dmemReqValid, Bool.and_eq_true] at hask
  have hbusy : memBusy s = true := by rw [memBusy, hm, hask.1.1.1, hask.1.2, Bool.and_self]
  have hrsp : memRspThisCycle s i = true := by
    rw [memRspThisCycle, hm, hask.1.1.1, hask.1.2, hv, Bool.and_self, Bool.and_self]
  simp [busNext, stallMem, hbusy, hrsp, hw, hm, hamo, hlr, value]

/-! ## The addresses of the SRAM in the bus fabric -/

/-- The addresses that the fabric sends to its SRAM have a place of their own there. -/
theorem byteAddr_sram {a : Word} (h : Fabric.isSram a = true) : a.toNat = 0x80000000 + byteAddr (2 ^ 14) a := by
  have hk : addrBits (2 ^ 14) = 14 := Nat.clog_pow 2 14 (by decide)
  have hhi := congrArg BitVec.toNat (beq_iff_eq.mp h)
  rw [BitVec.extractLsb'_toNat, Nat.shiftRight_eq_div_pow] at hhi
  rw [byteAddr, hk]
  have h8 : (0x8000#16 : BitVec 16).toNat = 0x8000 := rfl
  omega

section

variable {acc : Nat → Option Transfer} {lines : Nat → SramDp.In} {t : Nat} {x : Transfer}

/-- Places that lie `c` further on hold the same. -/
theorem memory_add {place place' : Word → Nat} {c : Nat} (m₀ : Nat → BitVec 8)
    (h : ∀ u y, acc u = some y → place' y.addr = c + place y.addr) (t b : Nat) :
    memory acc place' m₀ t (c + b) = memory acc place (fun l => m₀ (c + l)) t b := by
  induction t with
  | zero => rfl
  | succ t ih =>
      rcases stores_or_not acc t with ⟨y, hy, hs⟩ | hst
      · rw [memory_store _ hy hs, memory_store _ hy hs, h t y hy, ByteMemory.write_add]
        exact ByteMemory.write_congr ih _ _ _
      · rw [memory_stays _ hst, memory_stays _ hst]
        exact ih

/-- With accesses that the fabric sends to its SRAM, the memory has the addresses of the bus. -/
theorem value_sram (lines : Nat → SramDp.In) (s₀ : SramDp.State (2 ^ 14))
    (hin : ∀ u y, acc u = some y → Fabric.isSram y.addr = true) (hx : acc t = some x) (hl : x.isStore = false) :
    x.value (sram acc lines s₀ (t + 1)).bRspRdata =
      Isa.loaded (memory acc BitVec.toNat (fun a => bytes s₀.mem (a - 0x80000000)) t) x.ex.funct3 x.addr.toNat := by
  have hm := memory_add (fun a => bytes s₀.mem (a - 0x80000000)) fun u y hy => byteAddr_sram (hin u y hy)
  rw [value_load lines s₀ hx hl (SramDp.wordAddr_lt 14 _), byteAddr_sram (hin t x hx), Isa.loaded_add]
  simp only [hm, Nat.add_sub_cancel_left]

end

/-! ## A byte and back -/

/-- The access of an instruction that has just entered MEM with the operands `a` and `b`. -/
def Transfer.ofWord (w a b : Word)
    (hk : Decode.isLoad w = true ∧ Isa.Loads (funct3 w) ∨ Decode.isStore w = true ∧ Isa.Stores (funct3 w))
    (ha : Isa.width (funct3 w) ∣ (a + Decode.imm w).toNat) : Transfer :=
  let s := reset 0#32 fun _ => 0
  let ex := IdEx.ofId { s.id with instr := w } (mode s) a b
  have hd : ex.Decoded := IdEx.ofId_decoded (fun h => absurd h Bool.false_ne_true) _ _ _
  have hx : ex.IsTransfer := hk
  { core := { s with mem := ExMem.ofEx ex a b 0#32 none false }
    ex := ex
    rs1 := a
    rs2 := b
    decoded := hd
    entered := ⟨0#32, false, false, rfl⟩
    asks := by
      rcases hx with h | h <;> simp [dmemReqValid, memHasBusOp, ExMem.hasBusOp, ExMem.ofEx, h.1, s, reset]
    kind := hx
    aligned := by
      obtain ⟨hlr, hsc, hamo⟩ := hd.not_atomic hx.access
      rw [IdEx.lsAddr, IdEx.isAtomic, hlr, hsc, hamo]
      exact ha }

/-- `sb x2, 1(x1)` and `lb x3, 1(x1)`. -/
def byteThere (t : Nat) : Option Transfer :=
  if t = 0 then some (.ofWord 0x002080A3#32 0x80000000#32 0x80#32 (by decide) (by decide))
  else if t = 1 then some (.ofWord 0x00108183#32 0x80000000#32 0#32 (by decide) (by decide))
  else none

def idleLines : SramDp.In where
  aReqValid := false
  aReqAddr := 0
  bReq := ⟨false, 0, false, 0, 0⟩
  past := fun _ => 0

def emptySram : SramDp.State (2 ^ 2) where
  mem := fun _ => 0
  aRspValid := false
  aRspRdata := 0
  bRspValid := false
  bRspRdata := 0

theorem loads_and_stores_byte : ∃ x, byteThere 1 = some x ∧
    x.value (sram byteThere (fun _ => idleLines) emptySram 2).bRspRdata = 0xFFFFFF80#32 := by
  have hk : addrBits (2 ^ 2) = 2 := Nat.clog_pow 2 2 (by decide)
  refine ⟨_, rfl, ?_⟩
  have h := loads_and_stores byteThere (fun _ => idleLines) emptySram (t := 1) rfl
  rw [h.2.1 rfl (SramDp.wordAddr_lt 2 _)]
  simp only [memory, byteAddr, hk]
  decide

end QinglongCore.CorePipeline
