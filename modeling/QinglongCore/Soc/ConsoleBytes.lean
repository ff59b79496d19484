import QinglongCore.Base.Serial
import QinglongCore.Rtl.Console

/-!
# Console bytes on the serial line

A byte that the console port takes is presented to the transmitter one cycle after the transmitter was found idle. The
requester is silent in that cycle, so the transmitter is idle still, and it sends one frame for every byte.
-/

namespace QinglongCore.HelloTop

variable {d : Nat}

/-! ## What is stored and what is sent -/

/-- The byte that a request stores, when it is a console store that is taken. -/
def storedByte (s : State d) (r : Axi4Master.Req) : Option (BitVec 8) :=
  if r.valid && Mmio.reqReady r (consoleReady s) && r.wen && r.addr == Mmio.ADDR_CONSOLE && r.wmask.getLsbD 0 then
    some (r.wdata.extractLsb' 0 8)
  else none

/-- The bytes stored in the cycles before `t`, in order. -/
def stored (x : Nat → State d) (inp : Nat → Axi4Master.Req) (t : Nat) : List (BitVec 8) :=
  (List.range t).filterMap fun u => storedByte (x u) (inp u)

theorem stored_succ (x : Nat → State d) (inp : Nat → Axi4Master.Req) (t : Nat) :
    stored x inp (t + 1) = stored x inp t ++ (storedByte (x t) (inp t)).toList := by
  rw [stored, stored, List.range_succ, List.filterMap_append]
  cases h : storedByte (x t) (inp t) <;> simp [h]

/-- The serial line. -/
def line (x : Nat → State d) (t : Nat) : Bool := UartTx.tx (x t).uart

variable {s : State d} {r : Axi4Master.Req}

/-! ## The console port -/

theorem storedByte_silent (hr : r.valid = false) : storedByte s r = none := by
  simp [storedByte, hr]

/-- A busy transmitter holds console stores back. -/
theorem storedByte_busy (hb : s.uart.busy = true) : storedByte s r = none := by
  have hready : consoleReady s = false := by simp [consoleReady, UartTx.txReady, hb]
  unfold storedByte Mmio.reqReady
  cases hc : Mmio.isConsoleStore r with
  | true => simp [hready]
  | false =>
    simp only [Mmio.isConsoleStore] at hc
    rw [if_neg]
    intro h
    simp_all

/-- The byte that is stored is presented in the next cycle, with the response. -/
theorem step_presents (s : State d) (r : Axi4Master.Req) :
    (step s r).mmio.consoleValid = (storedByte s r).isSome ∧
      (∀ b, storedByte s r = some b → (step s r).mmio.consoleByte = b) ∧
      ((step s r).mmio.consoleValid = true → (step s r).mmio.rspValid = true) := by
  simp only [step, Mmio.step, storedByte]
  cases ht : r.valid && Mmio.reqReady r (consoleReady s) with
  | false => simp
  | true =>
    unfold Mmio.accept
    by_cases ha : r.addr = Mmio.ADDR_CONSOLE
    · cases hw : r.wen && r.wmask.getLsbD 0 <;> simp_all
    · by_cases he : r.addr = Mmio.ADDR_EXIT
      · cases hw : r.wen <;> simp_all
      · by_cases hs : r.addr = Mmio.ADDR_STATUS <;> simp_all

/-! ## The transmitter -/

/-- The shift register holds the bits of `b` from bit `k` on, and ones behind them. -/
def Holds (v : BitVec 10) (b : BitVec 8) (k : Nat) : Prop :=
  ∀ j, j < 10 → v.getLsbD j = (Serial.symbols b).getD (k + j) true

theorem holds_load (b : BitVec 8) : Holds (1#1 ++ b ++ 0#1) b 0 := by
  have hall : ∀ (b : BitVec 8) (j : Fin 10),
      (1#1 ++ b ++ 0#1).getLsbD j = (Serial.symbols b).getD j true := by decide +kernel
  intro j hj
  rw [Nat.zero_add]
  exact hall b ⟨j, hj⟩

theorem Holds.shift {v : BitVec 10} {b : BitVec 8} {k : Nat} (h : Holds v b k) :
    Holds (1#1 ++ v.extractLsb' 1 9) b (k + 1) := by
  intro j hj
  rw [BitVec.getLsbD_append]
  by_cases h9 : j < 9
  · rw [if_pos (by simpa using h9), BitVec.getLsbD_extractLsb', h (1 + j) (by omega), show k + (1 + j) = k + 1 + j by omega]
    simp [h9]
  · have hj9 : j = 9 := by omega
    rw [if_neg (by simpa using h9), hj9, List.getD_eq_getElem?_getD, List.getElem?_eq_none (by simp)]
    rfl

/-- The transmitter is in cycle `c` of bit `k` of the frame of `b`, and the receiver has had what went before. -/
structure Sending (s : State d) (rx : Serial.Receiver) (b : BitVec 8) (k c : Nat) : Prop where
  busy : s.uart.busy = true
  quiet : s.mmio.consoleValid = false
  bit : k < 10
  cycle : c < d
  bitCnt : s.uart.bitCnt.toNat = k
  divCnt : s.uart.divCnt.toNat = c
  holds : Holds s.uart.sreg b k
  samples : rx.samples = (Serial.frame d b).take (k * d + c)

variable {rx : Serial.Receiver} {b : BitVec 8} {k c : Nat}

/-- The line shows the sample of the frame that is due. -/
theorem Sending.line (h : Sending s rx b k c) : (Serial.frame d b)[k * d + c]? = some (UartTx.tx s.uart) := by
  have hlt : k < (Serial.symbols b).length := by rw [Serial.length_symbols]; exact h.bit
  have hsym := h.holds 0 (by decide)
  rw [Nat.add_zero, List.getD_eq_getElem?_getD, List.getElem?_eq_getElem hlt] at hsym
  rw [Serial.getElem?_frame h.cycle, List.getElem?_eq_getElem hlt, UartTx.tx, h.busy, if_pos rfl, hsym]
  rfl

/-- What the receiver has after the cycle, unless it is the last one of the frame. -/
theorem Sending.sample (h : Sending s rx b k c) (hn : k * d + c + 1 < 10 * d) :
    rx.sample d (UartTx.tx s.uart) = { rx with samples := (Serial.frame d b).take (k * d + c + 1) } :=
  Serial.sample_within (Nat.zero_lt_of_lt h.cycle) h.samples h.line hn

/-- Cycles of a bit that is not the last are not the last of the frame, nor are those before the end of a bit. -/
theorem Sending.not_last (h : Sending s rx b k c) (hc : c + 1 < d ∨ k + 1 < 10) : k * d + c + 1 < 10 * d := by
  have hcycle := h.cycle
  rcases hc with hc | hk
  · have hkd := Nat.mul_le_mul_right d (show k ≤ 9 from Nat.le_of_lt_succ h.bit)
    omega
  · have hkd := Nat.mul_le_mul_right d (show k ≤ 8 by omega)
    omega

theorem toNat_divCnt {v : BitVec (UartTx.divWidth d)} (hv : v.toNat + 1 < d) : (v + 1).toNat = v.toNat + 1 := by
  have hp : d + 1 ≤ 2 ^ UartTx.divWidth d := Nat.le_pow_clog (by decide) (d + 1)
  have hone : (1 : BitVec (UartTx.divWidth d)).toNat = 1 % 2 ^ UartTx.divWidth d := rfl
  rw [BitVec.toNat_add, hone, Nat.add_mod_mod, Nat.mod_eq_of_lt (by omega)]

/-- A cycle within a bit. -/
theorem Sending.next_cycle (h : Sending s rx b k c) (hc : c + 1 < d) (r : Axi4Master.Req) :
    Sending (step s r) (rx.sample d (UartTx.tx s.uart)) b k (c + 1) := by
  have hstep : (step s r).uart = { s.uart with divCnt := s.uart.divCnt + 1 } := by
    have hne : s.uart.divCnt.toNat ≠ d - 1 := by rw [h.divCnt]; omega
    simp [step, UartTx.step, h.busy, hne]
  refine ⟨?_, ?_, h.bit, hc, ?_, ?_, ?_, ?_⟩
  · rw [hstep]; exact h.busy
  · rw [(step_presents s r).1, storedByte_busy h.busy]; rfl
  · rw [hstep]; exact h.bitCnt
  · rw [hstep, ← h.divCnt]
    exact toNat_divCnt (by rw [h.divCnt]; omega)
  · rw [hstep]; exact h.holds
  · rw [h.sample (h.not_last (.inl hc))]
    rfl

/-- The last cycle of a bit that is not the stop bit. -/
theorem Sending.next_bit (h : Sending s rx b k c) (hc : c + 1 = d) (hk : k + 1 < 10) (r : Axi4Master.Req) :
    Sending (step s r) (rx.sample d (UartTx.tx s.uart)) b (k + 1) 0 := by
  have hd : 0 < d := by omega
  have hlast : s.uart.bitCnt ≠ 9#4 := by
    intro h9
    have hval := congrArg BitVec.toNat h9
    rw [h.bitCnt] at hval
    simp at hval
    omega
  have hstep : (step s r).uart =
      { divCnt := 0, sreg := 1#1 ++ s.uart.sreg.extractLsb' 1 9, busy := true, bitCnt := s.uart.bitCnt + 1 } := by
    have heq : s.uart.divCnt.toNat = d - 1 := by rw [h.divCnt]; omega
    simp [step, UartTx.step, h.busy, heq, hlast]
  refine ⟨?_, ?_, hk, hd, ?_, ?_, ?_, ?_⟩
  · rw [hstep]
  · rw [(step_presents s r).1, storedByte_busy h.busy]; rfl
  · rw [hstep, BitVec.toNat_add, h.bitCnt]
    simp
    omega
  · rw [hstep]; simp
  · rw [hstep]; exact h.holds.shift
  · rw [h.sample (h.not_last (.inr hk)), Nat.succ_mul]
    have hidx : k * d + c + 1 = k * d + d + 0 := by omega
    rw [hidx]

/-! ## Both machines and the receiver -/

/-- The cycles until a byte on its way has been sent. -/
def remaining (s : State d) : Nat :=
  if s.uart.busy then 10 * d - (s.uart.bitCnt.toNat * d + s.uart.divCnt.toNat)
  else if s.mmio.consoleValid then 10 * d + 1
  else 0

theorem Sending.remaining (h : Sending s rx b k c) : remaining s = 10 * d - (k * d + c) := by
  rw [HelloTop.remaining, if_pos h.busy, h.bitCnt, h.divCnt]

/-- The bytes stored are those received and the one on the way, if there is one: presented, or being sent. -/
structure Linked (s : State d) (rx : Serial.Receiver) (bytes : List (BitVec 8)) : Prop where
  clean : rx.error = false
  answered : s.mmio.consoleValid = true → s.mmio.rspValid = true
  way :
    (s.uart.busy = false ∧ rx.samples = [] ∧
        bytes = rx.bytes ++ if s.mmio.consoleValid then [s.mmio.consoleByte] else []) ∨
      ∃ b k c, Sending s rx b k c ∧ bytes = rx.bytes ++ [b]

theorem line_idle (hb : s.uart.busy = false) : UartTx.tx s.uart = true := by simp [UartTx.tx, hb]

variable {bytes : List (BitVec 8)}

/-- One clock edge of an idle transmitter: a byte presented is loaded, a byte stored is presented. -/
theorem linked_idle (hd : 0 < d) (h : Linked s rx bytes) (hpace : s.mmio.rspValid = true → r.valid = false)
    (hb : s.uart.busy = false) (hsamples : rx.samples = [])
    (hbytes : bytes = rx.bytes ++ if s.mmio.consoleValid then [s.mmio.consoleByte] else []) :
    Linked (step s r) (rx.sample d (UartTx.tx s.uart)) (bytes ++ (storedByte s r).toList) ∧
      (0 < remaining s → remaining (step s r) < remaining s) := by
  obtain ⟨hv, hbyte, hans⟩ := step_presents s r
  rw [line_idle hb, Serial.sample_idle hsamples]
  cases hc : s.mmio.consoleValid with
  | true =>
    have hnone := storedByte_silent (s := s) (hpace (h.answered hc))
    rw [hnone] at hv ⊢
    rw [hc, if_pos rfl] at hbytes
    have hload : (step s r).uart = { sreg := 1#1 ++ s.mmio.consoleByte ++ 0#1, divCnt := 0, bitCnt := 0, busy := true } := by
      simp [step, UartTx.step, hb, hc]
    have hsend : Sending (step s r) rx s.mmio.consoleByte 0 0 := by
      refine ⟨by rw [hload], hv, by decide, hd, by rw [hload]; rfl, by rw [hload]; simp, ?_, by simpa using hsamples⟩
      rw [hload]
      exact holds_load s.mmio.consoleByte
    refine ⟨⟨h.clean, hans, .inr ⟨_, 0, 0, hsend, by simpa using hbytes⟩⟩, fun _ => ?_⟩
    have hbefore : remaining s = 10 * d + 1 := by simp [remaining, hb, hc]
    rw [hsend.remaining, hbefore]
    omega
  | false =>
    rw [hc] at hbytes
    refine ⟨⟨h.clean, hans, .inl ⟨by simp [step, UartTx.step, hb, hc], hsamples, ?_⟩⟩, ?_⟩
    · rw [hbytes, hv]
      cases hst : storedByte s r with
      | none => simp
      | some b => simp [hbyte b hst]
    · intro hpos
      simp [remaining, hb, hc] at hpos

/-- One clock edge of a transmitter that sends. -/
theorem linked_sending (h : Linked s rx bytes) (hsend : Sending s rx b k c) (hbytes : bytes = rx.bytes ++ [b]) :
    Linked (step s r) (rx.sample d (UartTx.tx s.uart)) (bytes ++ (storedByte s r).toList) ∧
      (0 < remaining s → remaining (step s r) < remaining s) := by
  obtain ⟨hv, -, hans⟩ := step_presents s r
  have hnone := storedByte_busy (r := r) hsend.busy
  rw [hnone, Option.toList_none, List.append_nil, hsend.remaining]
  rcases Nat.lt_or_eq_of_le (Nat.succ_le_of_lt hsend.cycle) with hc | hc
  · have hnext := hsend.next_cycle hc r
    have hrx := hsend.sample (hsend.not_last (.inl hc))
    refine ⟨⟨by rw [hrx]; exact h.clean, hans, .inr ⟨b, k, c + 1, hnext, by rw [hrx]; exact hbytes⟩⟩, fun hpos => ?_⟩
    rw [hnext.remaining]
    omega
  · rcases Nat.lt_or_eq_of_le (Nat.succ_le_of_lt hsend.bit) with hk | hk
    · have hnext := hsend.next_bit hc hk r
      have hrx := hsend.sample (hsend.not_last (.inr hk))
      refine ⟨⟨by rw [hrx]; exact h.clean, hans, .inr ⟨b, k + 1, 0, hnext, by rw [hrx]; exact hbytes⟩⟩, fun hpos => ?_⟩
      rw [hnext.remaining, Nat.succ_mul k]
      omega
    · -- the last cycle of the stop bit
      have hk9 : k = 9 := by omega
      have hrx : rx.sample d (UartTx.tx s.uart) = { samples := [], bytes := rx.bytes ++ [b], error := rx.error } := by
        refine Serial.sample_last (Nat.zero_lt_of_lt hsend.cycle) hsend.samples hsend.line ?_
        rw [hk9]
        omega
      have hidle : (step s r).uart.busy = false := by
        have heq : s.uart.divCnt.toNat = d - 1 := by rw [hsend.divCnt]; omega
        have h9 : s.uart.bitCnt = 9#4 := BitVec.eq_of_toNat_eq (hsend.bitCnt.trans hk9)
        simp [step, UartTx.step, hsend.busy, heq, h9]
      have hquiet : (step s r).mmio.consoleValid = false := by rw [hv, hnone]; rfl
      refine ⟨⟨by rw [hrx]; exact h.clean, hans, .inl ⟨hidle, by rw [hrx], ?_⟩⟩, fun hpos => ?_⟩
      · rw [hquiet, hrx]
        simpa using hbytes
      · rw [remaining, hidle, hquiet]
        exact hpos

/-- One clock edge, from a requester that is silent while it is answered. -/
theorem Linked.step (hd : 0 < d) (h : Linked s rx bytes) (hpace : s.mmio.rspValid = true → r.valid = false) :
    Linked (step s r) (rx.sample d (UartTx.tx s.uart)) (bytes ++ (storedByte s r).toList) ∧
      (0 < remaining s → remaining (HelloTop.step s r) < remaining s) := by
  rcases h.way with ⟨hb, hsamples, hbytes⟩ | ⟨b, k, c, hsend, hbytes⟩
  · exact linked_idle hd h hpace hb hsamples hbytes
  · exact linked_sending h hsend hbytes

/-- With nothing on the way, what is stored has been received. -/
theorem Linked.received (h : Linked s rx bytes) (hz : remaining s = 0) : rx.bytes = bytes := by
  rcases h.way with ⟨hb, -, hbytes⟩ | ⟨b, k, c, hsend, -⟩
  · cases hc : s.mmio.consoleValid with
    | true => simp [remaining, hb, hc] at hz
    | false => simpa [hc] using hbytes.symm
  · rw [hsend.remaining] at hz
    have hcycle := hsend.cycle
    have hkd := Nat.mul_le_mul_right d (show k ≤ 9 from Nat.le_of_lt_succ hsend.bit)
    omega

/-! ## Runs -/

variable {clkHz baud : Nat} {inp : Nat → Axi4Master.Req}

/-- What an 8N1 receiver has had from the serial line before cycle `t`. -/
def received (clkHz baud : Nat) (inp : Nat → Axi4Master.Req) (t : Nat) : Serial.Receiver :=
  Serial.receive (DIV_MAX clkHz baud) (line (run clkHz baud inp)) t

/-- The next request is made no earlier than the cycle after a response. -/
def Paced (clkHz baud : Nat) (inp : Nat → Axi4Master.Req) : Prop :=
  ∀ t, (run clkHz baud inp t).mmio.rspValid = true → (inp t).valid = false

theorem linked_run (hd : 1 ≤ DIV_MAX clkHz baud) (hp : Paced clkHz baud inp) (t : Nat) :
    Linked (run clkHz baud inp t) (received clkHz baud inp t) (stored (run clkHz baud inp) inp t) := by
  induction t with
  | zero => exact ⟨rfl, fun h => absurd h Bool.false_ne_true, .inl ⟨rfl, rfl, rfl⟩⟩
  | succ t ih =>
    rw [stored_succ, received, Serial.receive_succ]
    exact (ih.step hd (hp t)).1

/-- For every clock and baud rate with at least one cycle to the bit and every stream of requests from a requester that
waits for its responses: the line carries nothing but whole frames, the bytes received are the first of those stored, in
order, and time and again they are all of them. -/
theorem console_bytes (hd : 1 ≤ DIV_MAX clkHz baud) (hp : Paced clkHz baud inp) (t : Nat) :
    (received clkHz baud inp t).error = false ∧
      (received clkHz baud inp t).bytes <+: stored (run clkHz baud inp) inp t ∧
      ∃ u, t ≤ u ∧ (received clkHz baud inp u).bytes = stored (run clkHz baud inp) inp u := by
  refine ⟨(linked_run hd hp t).clean, ?_, ?_⟩
  · rcases (linked_run hd hp t).way with ⟨-, -, hbytes⟩ | ⟨b, -, -, -, hbytes⟩
    · exact ⟨_, hbytes.symm⟩
    · exact ⟨_, hbytes.symm⟩
  · have hfall : ∀ u, 0 < remaining (run clkHz baud inp u) →
        ∃ v, u ≤ v ∧ remaining (run clkHz baud inp v) < remaining (run clkHz baud inp u) :=
      fun u hpos => ⟨u + 1, Nat.le_succ u, ((linked_run hd hp u).step hd (hp u)).2 hpos⟩
    obtain ⟨u, htu, hz⟩ := Sync.descends hfall t
    exact ⟨u, htu, (linked_run hd hp u).received hz⟩

/-- Two stores, the second held until the frame of the first has been sent, at one cycle to the bit. -/
def twoStores (t : Nat) : Axi4Master.Req :=
  { valid := t == 0 || decide (2 ≤ t ∧ t ≤ 12), addr := 0xD0580000, wen := true
    wdata := if t = 0 then 0x48 else 0x69, wmask := 0b0001 }

theorem twoStores_paced : Paced 1 1 twoStores := by
  intro t h
  by_cases ht : t ≤ 12
  · have hall : ∀ u : Fin 13, (run 1 1 twoStores u).mmio.rspValid = true → (twoStores u).valid = false := by decide
    exact hall ⟨t, by omega⟩ h
  · simp [twoStores, show ¬ t = 0 by omega, ht]

theorem console_bytes_two :
    stored (run 1 1 twoStores) twoStores 24 = [0x48#8, 0x69#8] ∧
      ∃ u, 24 ≤ u ∧ (received 1 1 twoStores u).bytes = stored (run 1 1 twoStores) twoStores u :=
  ⟨by decide, (console_bytes (by decide) twoStores_paced 24).2.2⟩

end QinglongCore.HelloTop
