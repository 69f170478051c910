import Vektordb.Codec.LittleEndian

/-!
Readers that take bytes off the front of a file. A file made of encoded parts is read back
part by part: each rule below consumes the part that stands first.
-/

namespace LittleEndian

/-- Takes what it needs off the front of the bytes, or fails. -/
abbrev Reader (ε α : Type) := StateT Bytes (Except ε) α

namespace Reader

variable {ε α β : Type}

def take (short : ε) (count : Nat) : Reader ε Bytes := fun bytes =>
  if count ≤ bytes.length then .ok (bytes.take count, bytes.drop count) else .error short

def number (short : ε) (width : Nat) : Reader ε Nat := do
  let raw ← take short width
  pure (decode raw)

def check (holds : Prop) [Decidable holds] (otherwise : ε) : Reader ε Unit := fun bytes =>
  if holds then .ok ((), bytes) else .error otherwise

def remaining : Reader ε Bytes := fun bytes => .ok (bytes, bytes)

theorem bind_ok {read : Reader ε α} {bytes rest : Bytes} {value : α}
    (done : read bytes = .ok (value, rest)) (next : α → Reader ε β) :
    (read >>= next) bytes = next value rest := by
  show (read bytes >>= fun pair => next pair.1 pair.2) = next value rest
  rw [done]
  rfl

theorem bind_error {read : Reader ε α} {bytes : Bytes} {e : ε}
    (failed : read bytes = .error e) (next : α → Reader ε β) :
    (read >>= next) bytes = .error e := by
  show (read bytes >>= fun pair => next pair.1 pair.2) = .error e
  rw [failed]
  rfl

theorem check_bind {holds : Prop} [Decidable holds] {otherwise : ε} (held : holds)
    (bytes : Bytes) (next : Unit → Reader ε β) :
    (check holds otherwise >>= next) bytes = next () bytes :=
  bind_ok (by simp only [check, if_pos held]) next

theorem check_bind_error {holds : Prop} [Decidable holds] {otherwise : ε} (fails : ¬ holds)
    (bytes : Bytes) (next : Unit → Reader ε β) :
    (check holds otherwise >>= next) bytes = .error otherwise :=
  bind_error (by simp only [check, if_neg fails]) next

theorem remaining_bind (bytes : Bytes) (next : Bytes → Reader ε β) :
    (remaining >>= next) bytes = next bytes bytes := rfl

theorem lift_bind (value : α) (bytes : Bytes) (next : α → Reader ε β) :
    ((liftM (Except.ok value : Except ε α) : Reader ε α) >>= next) bytes = next value bytes := rfl

theorem take_append {short : ε} {count : Nat} {front : Bytes} (exactly : front.length = count)
    (rest : Bytes) : take short count (front ++ rest) = .ok (front, rest) := by
  subst exactly
  unfold take
  rw [if_pos (by rw [List.length_append]; exact Nat.le_add_right _ _), List.take_left,
    List.drop_left]

theorem number_append {short : ε} {width value : Nat} (small : value < 256 ^ width)
    (rest : Bytes) : number short width (encode width value ++ rest) = .ok (value, rest) := by
  unfold number
  rw [bind_ok (take_append (encode_length width value) rest), decode_encode_of_lt small]
  rfl

theorem number_append_mod {short : ε} (width value : Nat) (rest : Bytes) :
    number short width (encode width value ++ rest) = .ok (value % 256 ^ width, rest) := by
  unfold number
  rw [bind_ok (take_append (encode_length width value) rest), decode_encode]
  rfl

def many (read : Reader ε α) : Nat → Reader ε (List α)
  | 0 => pure []
  | count + 1 => do
      let first ← read
      let others ← many read count
      pure (first :: others)

theorem many_append {read : Reader ε α} {write : α → Bytes} {values : List α}
    (reads : ∀ value ∈ values, ∀ rest, read (write value ++ rest) = .ok (value, rest))
    (rest : Bytes) :
    many read values.length (values.flatMap write ++ rest) = .ok (values, rest) := by
  induction values with
  | nil => rfl
  | cons value tail ih =>
      have head := reads value (List.mem_cons_self ..) (tail.flatMap write ++ rest)
      have others := ih fun other member => reads other (List.mem_cons_of_mem value member)
      rw [List.flatMap_cons, List.append_assoc, List.length_cons, many, bind_ok head,
        bind_ok others]
      rfl

/-! ### What a read that succeeds has taken -/

theorem bind_inv {read : Reader ε α} {next : α → Reader ε β} {bytes : Bytes} {out : β × Bytes}
    (done : (read >>= next) bytes = .ok out) :
    ∃ value rest, read bytes = .ok (value, rest) ∧ next value rest = .ok out := by
  change (read bytes >>= fun pair => next pair.1 pair.2) = .ok out at done
  cases first : read bytes with
  | error e =>
      rw [first] at done
      cases done
  | ok pair =>
      rw [first] at done
      exact ⟨pair.1, pair.2, rfl, done⟩

theorem check_inv {holds : Prop} [Decidable holds] {otherwise : ε} {next : Unit → Reader ε β}
    {bytes : Bytes} {out : β × Bytes} (done : (check holds otherwise >>= next) bytes = .ok out) :
    holds ∧ next () bytes = .ok out := by
  by_cases held : holds
  · rw [check_bind held] at done
    exact ⟨held, done⟩
  · rw [check_bind_error held] at done
    cases done

theorem lift_inv {result : Except ε α} {next : α → Reader ε β} {bytes : Bytes} {out : β × Bytes}
    (done : ((liftM result : Reader ε α) >>= next) bytes = .ok out) :
    ∃ value, result = .ok value ∧ next value bytes = .ok out := by
  cases result with
  | error e => cases done
  | ok value => exact ⟨value, rfl, done⟩

theorem number_inv {short : ε} {width value : Nat} {bytes rest : Bytes}
    (done : number short width bytes = .ok (value, rest)) :
    bytes = encode width value ++ rest ∧ value < 256 ^ width := by
  obtain ⟨raw, after, took, returned⟩ := bind_inv done
  cases returned
  unfold take at took
  split at took
  · rename_i long
    cases took
    refine ⟨?_, decode_take_lt width bytes⟩
    rw [encode_decode_take width bytes long, List.take_append_drop]
  · cases took

/-- A reader that takes what `write` writes of a valid value takes this of every value that it is
to read. -/
theorem many_inv {read : Reader ε α} {write : α → Bytes} {valid : α → Prop}
    (one : ∀ bytes value rest, read bytes = .ok (value, rest) →
      bytes = write value ++ rest ∧ valid value) {count : Nat} {bytes rest : Bytes}
    {values : List α} (done : many read count bytes = .ok (values, rest)) :
    bytes = values.flatMap write ++ rest ∧ values.length = count ∧ ∀ v ∈ values, valid v := by
  induction count generalizing bytes values with
  | zero =>
      cases done
      exact ⟨rfl, rfl, fun v member => absurd member List.not_mem_nil⟩
  | succ count ih =>
      obtain ⟨head, after, first, later⟩ := bind_inv done
      obtain ⟨tail, last, others, returned⟩ := bind_inv later
      cases returned
      obtain ⟨parts, validHead⟩ := one _ _ _ first
      obtain ⟨partsTail, length, validTail⟩ := ih others
      refine ⟨?_, by rw [List.length_cons, length], ?_⟩
      · rw [parts, partsTail, List.flatMap_cons, List.append_assoc]
      · intro v member
        rcases List.mem_cons.mp member with rfl | old
        · exact validHead
        · exact validTail v old

end Reader

end LittleEndian
