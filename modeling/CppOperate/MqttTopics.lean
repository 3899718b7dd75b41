import CppOperate.MqttPacket
import Mathlib

/-! Which topic names a subscription's filter takes: `mqtt_topic_is_matched`, which goes
through both strings at once, and the levels between the slashes it decides about. -/
namespace CppOperate.Mqtt
open CNumbers CStrings

def slash : UInt8 := 47
def plus : UInt8 := 43
def hash : UInt8 := 35

/-- The loop of `mqtt_topic_is_matched`, from `*curf` and `*curn` on. A `break` leaves
bytes of the name over, so it answers 0. -/
def topicLoop : (curf curn : List UInt8) → Bool
  | [], curn => curn.isEmpty
  | _ :: _, [] => false
  | f :: curf, n :: curn =>
    if n = slash ∧ f ≠ slash then false
    else if f ≠ plus ∧ f ≠ hash ∧ f ≠ n then false
    else if f = plus then topicLoop curf (curn.dropWhile (· ≠ slash))
    else if f = hash then topicLoop curf []
    else topicLoop curf curn

/-- The bytes from `lenstring.data` to `curn_end`; with a negative length there are none. -/
def MqttString.name (topicName : MqttString) : List UInt8 :=
  (topicName.lenstring.data.getD []).take topicName.lenstring.len.toNat

def topicIsMatched (topicFilter : CString) (topicName : MqttString) : Bool :=
  decide (0 ≤ topicName.lenstring.len) && topicLoop topicFilter.bytes topicName.name

/-- `strncmp(a, b, n) == 0`, of what the memory holds from the two pointers on. -/
def strncmpEqual (a b : List UInt8) (n : ℤ) : Bool :=
  let n := if n < 0 then (n+2^64).toNat else n.toNat
  decide ((str a).take n = (str b).take n)

def packetEquals (a : MqttString) (bptr : CString) : Bool :=
  let (aptr,alen) := match a.cstring with
    | some c => (c.bytes, int32 c.bytes.length)
    | none => (a.lenstring.data.getD [], a.lenstring.len)
  decide (alen = int32 bptr.bytes.length) && strncmpEqual aptr bptr.bytes alen

/-- The test `mqtt_get_msg_handler` makes of each handler of the list. -/
def filterTakes (topicFilter : CString) (topicName : MqttString) : Bool :=
  packetEquals topicName topicFilter || topicIsMatched topicFilter topicName

/-- A level of a filter: `+`, or a text in which no byte is special. -/
inductive Level
  | any
  | exactly (text : List UInt8) (plain : ∀ b ∈ text, b ≠ slash ∧ b ≠ plus ∧ b ≠ hash ∧ b ≠ 0)

/-- A filter: one or more levels, or some levels and `#`. -/
inductive Filter
  | last (l : Level)
  | rest
  | level (l : Level) (f : Filter)

def Level.text : Level → List UInt8
  | any => [plus]
  | exactly text _ => text

def Filter.text : Filter → List UInt8
  | last l => l.text
  | rest => [hash]
  | level l f => l.text ++ slash :: f.text

def Level.Allows : Level → List UInt8 → Prop
  | any, _ => True
  | exactly text _, n => n = text

/-- What a filter is for: `+` stands for one level, `#` for all further ones, and none. -/
def Filter.Selects : Filter → List (List UInt8) → Prop
  | last l, [n] => l.Allows n
  | last _, _ => False
  | rest, _ => True
  | level _ _, [] => False
  | level l f, n :: ns => l.Allows n ∧ f.Selects ns

/-- Where the filter has a wildcard the name has a level that is not empty. -/
def Filter.Filled : Filter → List (List UInt8) → Prop
  | _, [] => False
  | last l, n :: _ => l = .any → n ≠ []
  | rest, n :: _ => n ≠ []
  | level l f, n :: ns => (l = .any → n ≠ []) ∧ f.Filled ns

/-- The names a subscription gets: those its filter selects, but a wildcard does not stand
for an empty level, and `#` not for the end of the name. -/
def Filter.Takes (f : Filter) (name : List UInt8) : Prop :=
  f.Selects (name.splitOn slash) ∧ f.Filled (name.splitOn slash)

instance Level.decidableAllows (l : Level) (n : List UInt8) : Decidable (l.Allows n) :=
  match l with
  | any => isTrue trivial
  | exactly text _ => inferInstanceAs (Decidable (n = text))

instance Level.decidableIsAny (l : Level) : Decidable (l = .any) :=
  match l with
  | any => isTrue rfl
  | exactly _ _ => isFalse Level.noConfusion

instance Filter.decidableSelects : (f : Filter) → (ns : List (List UInt8)) → Decidable (f.Selects ns)
  | last l, [n] => inferInstanceAs (Decidable (l.Allows n))
  | last _, [] => isFalse id
  | last _, _ :: _ :: _ => isFalse id
  | rest, _ => isTrue trivial
  | level _ _, [] => isFalse id
  | level l f, n :: ns =>
    have := Filter.decidableSelects f ns
    inferInstanceAs (Decidable (l.Allows n ∧ f.Selects ns))

instance Filter.decidableFilled : (f : Filter) → (ns : List (List UInt8)) → Decidable (f.Filled ns)
  | last _, [] => isFalse id
  | rest, [] => isFalse id
  | level _ _, [] => isFalse id
  | last l, n :: _ => inferInstanceAs (Decidable (l = .any → n ≠ []))
  | rest, n :: _ => inferInstanceAs (Decidable (n ≠ []))
  | level l f, n :: ns =>
    have := Filter.decidableFilled f ns
    inferInstanceAs (Decidable ((l = .any → n ≠ []) ∧ f.Filled ns))

instance Filter.decidableTakes (f : Filter) (name : List UInt8) : Decidable (f.Takes name) :=
  inferInstanceAs (Decidable (f.Selects (name.splitOn slash) ∧ f.Filled (name.splitOn slash)))

theorem Level.text_noNul (l : Level) : 0 ∉ l.text := by
  intro h
  cases l with
  | any => exact absurd h (by decide)
  | exactly text plain => exact (plain 0 h).2.2.2 rfl

theorem Filter.text_noNul (f : Filter) : 0 ∉ f.text := by
  induction f with
  | last l => exact l.text_noNul
  | rest => decide
  | level l f ih =>
    intro h
    rcases List.mem_append.mp h with h | h
    · exact l.text_noNul h
    · rcases List.mem_cons.mp h with h | h
      · exact absurd h (by decide)
      · exact ih h

def Filter.cstring (f : Filter) : CString := ⟨f.text, f.text_noNul⟩

section Loop
variable (curf m t : List UInt8)

end Loop

/-- A topic name in a received packet, and what the memory holds behind it. -/
def MqttString.received (name after : List UInt8) : MqttString :=
  ⟨none, name.length, some (name ++ after)⟩

end CppOperate.Mqtt
