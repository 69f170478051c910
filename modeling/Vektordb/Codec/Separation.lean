import Vektordb.Codec.LittleEndian

/-!
Encodings that tell where they end. What is written one after the other with such an encoding can
be taken apart in one way only.
-/

namespace LittleEndian

variable {α : Type}

/-- Two codes with something behind them agree only if they are the same code. -/
def Separates (fits : α → Prop) (code : α → Bytes) : Prop :=
  ∀ left right x y, fits left → fits right → code left ++ x = code right ++ y → left = right ∧ x = y

theorem separates_encode (width : Nat) : Separates (· < 256 ^ width) (encode width) := by
  intro left right x y small other same
  obtain ⟨codes, rest⟩ := List.append_inj same (by rw [encode_length, encode_length])
  have equal := congrArg decode codes
  rw [decode_encode_of_lt small, decode_encode_of_lt other] at equal
  exact ⟨equal, rest⟩

theorem Separates.flatMap {fits : α → Prop} {code : α → Bytes} (separates : Separates fits code)
    {left right : List α} {x y : Bytes} (length : left.length = right.length)
    (fitLeft : ∀ value ∈ left, fits value) (fitRight : ∀ value ∈ right, fits value)
    (same : left.flatMap code ++ x = right.flatMap code ++ y) : left = right ∧ x = y := by
  induction left generalizing right with
  | nil =>
      cases right with
      | nil => exact ⟨rfl, same⟩
      | cons value tail => cases length
  | cons first rest ih =>
      cases right with
      | nil => cases length
      | cons value tail =>
          rw [List.flatMap_cons, List.flatMap_cons, List.append_assoc, List.append_assoc] at same
          obtain ⟨rfl, later⟩ := separates first value _ _ (fitLeft first (List.mem_cons_self ..))
            (fitRight value (List.mem_cons_self ..)) same
          obtain ⟨rfl, behind⟩ := ih (Nat.succ.inj length)
            (fun other member => fitLeft other (List.mem_cons_of_mem first member))
            (fun other member => fitRight other (List.mem_cons_of_mem first member)) later
          exact ⟨rfl, behind⟩

theorem Separates.counted {fits : α → Prop} {code : α → Bytes} (separates : Separates fits code)
    (width : Nat) : Separates (fun values : List α => values.length < 256 ^ width ∧
      ∀ value ∈ values, fits value) fun values => encode width values.length ++ values.flatMap code := by
  intro left right x y fitLeft fitRight same
  rw [List.append_assoc, List.append_assoc] at same
  obtain ⟨length, rest⟩ := separates_encode width _ _ _ _ fitLeft.1 fitRight.1 same
  exact separates.flatMap length fitLeft.2 fitRight.2 rest

end LittleEndian
