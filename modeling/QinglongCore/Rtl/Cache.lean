import QinglongCore.Rtl.Defs

/-!
# What the caches share (`icache.sv`, `dcache.sv`)

Four ways of 64 sets with lines of 16 words, synchronous read ports, and a tree-pLRU of three bits a set.
-/

namespace QinglongCore.Cache

def LINE_WORDS : Nat := 16

def aTag (a : Word) : BitVec 20 := a.extractLsb' 12 20
def aIdx (a : Word) : BitVec 6 := a.extractLsb' 6 6
def aWoff (a : Word) : BitVec 4 := a.extractLsb' 2 4

abbrev Way := Fin 4

/-- `tag_ram`, `data_ram`, `valid_bits` and `plru_ram`; the first two have no reset. -/
structure Arrays where
  tag : Way → BitVec 6 → BitVec 20
  data : Way → BitVec 6 → BitVec 4 → Word
  valid : BitVec 6 → Way → Bool
  plru : BitVec 6 → BitVec 3

def Arrays.reset (tag : Way → BitVec 6 → BitVec 20) (data : Way → BitVec 6 → BitVec 4 → Word) : Arrays :=
  ⟨tag, data, fun _ _ => false, fun _ => 0⟩

/-- The output registers of the read ports. -/
structure ReadRegs where
  tag : Way → BitVec 20
  valid : Way → Bool
  data : Way → Word

def Arrays.read (m : Arrays) (idx : BitVec 6) (woff : BitVec 4) : ReadRegs where
  tag := fun w => m.tag w idx
  valid := m.valid idx
  data := fun w => m.data w idx woff

def hitVec (rd : ReadRegs) (a : Word) (w : Way) : Bool := rd.valid w && rd.tag w == aTag a

/-- The hitting way of the highest index. -/
def hitWay (rd : ReadRegs) (a : Word) : Option Way :=
  if hitVec rd a 3 then some 3
  else if hitVec rd a 2 then some 2
  else if hitVec rd a 1 then some 1
  else if hitVec rd a 0 then some 0
  else none

def plruPick (p : BitVec 3) : Way :=
  if p.getLsbD 2 then (if p.getLsbD 0 then 3 else 2) else (if p.getLsbD 1 then 1 else 0)

/-- The bits on the path to way `w` are turned away from it. -/
def plruUpdate (p : BitVec 3) (w : Way) : BitVec 3 :=
  match w with
  | 0 => BitVec.ofBool true ++ BitVec.ofBool true ++ p.extractLsb' 0 1
  | 1 => BitVec.ofBool true ++ BitVec.ofBool false ++ p.extractLsb' 0 1
  | 2 => BitVec.ofBool false ++ p.extractLsb' 1 1 ++ BitVec.ofBool true
  | 3 => BitVec.ofBool false ++ p.extractLsb' 1 1 ++ BitVec.ofBool false

/-- The address of word `j` of a line. -/
def lineWord (tag : BitVec 20) (idx : BitVec 6) (j : BitVec 4) : Word := tag ++ idx ++ j ++ 0#2

/-- The address of beat `cnt` of the fill for the line of `a`. -/
def beatAddr (a : Word) (cnt : Nat) : Word := lineWord (aTag a) (aIdx a) (BitVec.ofNat 4 cnt)

/-- `{a[31:2], 2'b00}`. -/
def wordAddr (a : Word) : Word := lineWord (aTag a) (aIdx a) (aWoff a)

namespace Arrays

variable (m : Arrays) (idx : BitVec 6) (w : Way)

def setTag (tag : BitVec 20) : Arrays :=
  { m with tag := fun v i => if v = w ∧ i = idx then tag else m.tag v i }

def setValid : Arrays := { m with valid := fun i v => if i = idx ∧ v = w then true else m.valid i v }

def clearValid : Arrays := { m with valid := fun _ _ => false }

def setData (j : BitVec 4) (x : Word) : Arrays :=
  { m with data := fun v i k => if v = w ∧ i = idx ∧ k = j then x else m.data v i k }

def touch : Arrays := { m with plru := fun i => if i = idx then plruUpdate (m.plru idx) w else m.plru i }

end Arrays

end QinglongCore.Cache
