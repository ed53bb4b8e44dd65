import RwModbus.NumberCopy
import RwModbus.OpcClient

/-!
# The client's two ways to read

`Read` takes the value out of the variant that the server answered with; `ReadNumber`
takes only the status. What the server answers is a parameter of the call.
-/
namespace RwModbus.OpcClient
open Numeric Registers Opc Number

/-- A variable of the server: its type and the bytes of its value. -/
structure Variable where
  uaType : UaType
  data : NumericU

/-- What `UA_Client_connect` answers if it is called, and what
`UA_Client_readValueAttribute` answers; if that is good, the variant has the type and
value of the variable. -/
structure Answers where
  connect : StatusCode
  read : StatusCode

/-- `UA_StatusCode_name`. -/
abbrev StatusNames := StatusCode → Name

variable (names : StatusNames) (ans : Answers) (v : Variable)

/-- `Read<T>(varname, x)` for the C++ type that belongs to `t`. Without its mutex a call
does not return. -/
def read (t : UaType) (x : NumericU) (c : Client) : Option (Client × NumericU × Bool) :=
  if c.muxClient then
    let r := c.connect ans.connect
    if r.2 ∧ ans.read = statusGood ∧ v.uaType = t then some (r.1, v.data.typed t.words, true)
    else some (r.1, x, false)
  else none

/-- `ReadNumber(varname, Numx)`. The type in the variant is looked up, but the statement
that would set type and value is commented out. -/
def readNumber (Numx : NumberC) (c : Client) : Option (Client × NumberC × Bool) :=
  if c.muxClient then
    let Numx := { Numx with isgood := false }
    let r := c.connect ans.connect
    if r.2 then
      let ok := decide (ans.read = statusGood)
      some (r.1, Numx.setStatus ans.read.toInt (names ans.read) ok, ok)
    else some (r.1, Numx, false)
  else none

/-- The number is good and has the type and value that `Read` delivers if the call
returns true, and is not good if it returns false. -/
structure Alike (Numx : NumberC) (c : Client) : Prop where
  delivered : ∀ c' m, readNumber names ans Numx c = some (c', m, true) →
    m.isgood = true ∧ m.typeUa = code v.uaType ∧
      ∀ x, read ans v v.uaType x c = some (c', m.value.typed v.uaType.words, true)
  refused : ∀ c' m, readNumber names ans Numx c = some (c', m, false) → m.isgood = false

/-- The number has the type and the value of the variable already. -/
def Holds (Numx : NumberC) : Prop :=
  Numx.typeUa = code v.uaType ∧
    Numx.value.typed v.uaType.words = v.data.typed v.uaType.words

instance (Numx : NumberC) : Decidable (Holds v Numx) := inferInstanceAs (Decidable (_ ∧ _))

section
variable {names ans v} {Numx : NumberC} {c : Client}

/-- The call gets to the server and is answered. -/
theorem readNumber_answered (hmux : c.muxClient = true) (hc : (c.connect ans.connect).2 = true)
    (hread : ans.read = statusGood) : readNumber names ans Numx c =
      some ((c.connect ans.connect).1, Numx.setStatus ans.read.toInt (names ans.read) true, true) := by
  simp [readNumber, hmux, hc, hread, NumberC.setStatus]

theorem readNumber_false {c' : Client} {m : NumberC}
    (h : readNumber names ans Numx c = some (c', m, false)) : m.isgood = false := by
  unfold readNumber at h
  dsimp only at h
  split_ifs at h with hmux hc
  · simp only [Option.some.injEq, Prod.mk.injEq] at h
    obtain ⟨-, rfl, hok⟩ := h
    exact hok
  · simp only [Option.some.injEq, Prod.mk.injEq] at h
    obtain ⟨-, rfl, -⟩ := h
    rfl

theorem readNumber_true {c' : Client} {m : NumberC}
    (h : readNumber names ans Numx c = some (c', m, true)) : c.muxClient = true ∧
      (c.connect ans.connect).2 = true ∧ ans.read = statusGood := by
  unfold readNumber at h
  dsimp only at h
  split_ifs at h with hmux hc
  · simp only [Option.some.injEq, Prod.mk.injEq, decide_eq_true_iff] at h
    exact ⟨hmux, hc, h.2.2⟩
  · simp at h

/-- Exactly a successful call on a number that does not have the type and value of the
variable before goes wrong. -/
theorem alike_iff : Alike names ans v Numx c ↔ c.muxClient = false ∨
    (c.connect ans.connect).2 = false ∨ ans.read ≠ statusGood ∨ Holds v Numx := by
  constructor
  · intro halike
    by_contra h
    simp only [not_or, Bool.not_eq_false, not_not] at h
    obtain ⟨hmux, hc, hread, hnot⟩ := h
    obtain ⟨-, htype, hsame⟩ := halike.delivered _ _ (readNumber_answered hmux hc hread)
    have hvalue := hsame {}
    simp only [read, hmux, hc, hread, and_self, if_true, Option.some.injEq, Prod.mk.injEq, true_and,
      and_true] at hvalue
    exact hnot ⟨htype, hvalue.symm⟩
  · intro h
    refine ⟨fun c' m hm => ?_, fun c' m hm => readNumber_false hm⟩
    obtain ⟨hmux, hc, hread⟩ := readNumber_true hm
    obtain ⟨htype, hvalue⟩ : Holds v Numx := by
      rcases h with h | h | h | h
      · exact absurd (h.symm.trans hmux) (by decide)
      · exact absurd (h.symm.trans hc) (by decide)
      · exact absurd hread h
      · exact h
    rw [readNumber_answered hmux hc hread, Option.some.injEq, Prod.mk.injEq, Prod.mk.injEq] at hm
    obtain ⟨rfl, rfl, -⟩ := hm
    refine ⟨rfl, htype, fun x => ?_⟩
    simp only [read, hmux, hc, hread, and_self, if_true]
    rw [← hvalue]
    rfl

end

/-- The conditions in terms of the call's inputs. -/
theorem connect_false_iff {answer : StatusCode} {c : Client} :
    (c.connect answer).2 = false ↔ c.scConnect ≠ statusGood ∧ answer ≠ statusGood := by
  unfold Client.connect
  dsimp only
  split_ifs with hsc hanswer <;> simp_all

/-- A read is right exactly if the call fails or the number has the variable's type and
value to begin with. -/
theorem readNumber_alike_iff (names : StatusNames) (ans : Answers) (v : Variable) (Numx : NumberC)
    (c : Client) : Alike names ans v Numx c ↔ c.muxClient = false ∨
      (c.scConnect ≠ statusGood ∧ ans.connect ≠ statusGood) ∨ ans.read ≠ statusGood ∨
        Holds v Numx := by
  rw [alike_iff, connect_false_iff]

/-- A new number does not take the value 5 of a variable. -/
theorem readNumber_stale : ¬ ∀ (names : StatusNames) (ans : Answers) (v : Variable)
    (Numx : NumberC) (c : Client), Alike names ans v Numx c := by
  intro h
  have halike := h (fun _ => []) ⟨statusGood, statusGood⟩ ⟨.uint16, .ofUi16 5⟩ NumberC.new
    (Client.init (start localUrl))
  have hc := alike_iff.mp halike
  revert hc
  decide

end RwModbus.OpcClient
