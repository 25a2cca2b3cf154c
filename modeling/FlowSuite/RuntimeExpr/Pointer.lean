/-!
# Pointers into JSON values

A pointer is the list of keys on the way from a value to a part of it. In text each key follows a slash, and inside a
key the slash is written `~1` and the tilde `~0`.

- reading a written key gives it back (`decodeKey_encodeKey`).
-/

namespace FlowSuite

/-- The keys on the way to a part of a JSON value. -/
structure Pointer where
  keys : List String
deriving DecidableEq, Repr

namespace Pointer

/-- A key with its slashes and tildes escaped. -/
def encodeKey : List Char → List Char
  | [] => []
  | c :: cs =>
    if c = '~' then '~' :: '0' :: encodeKey cs
    else if c = '/' then '~' :: '1' :: encodeKey cs
    else c :: encodeKey cs

/-- The key that an escaped text stands for; none where a tilde has no `0` or `1` behind it. -/
def decodeKey : List Char → Option (List Char)
  | [] => some []
  | ['~'] => none
  | '~' :: d :: cs =>
    if d = '0' then (decodeKey cs).map ('~' :: ·)
    else if d = '1' then (decodeKey cs).map ('/' :: ·)
    else none
  | c :: cs => (decodeKey cs).map (c :: ·)

theorem decodeKey_cons {c : Char} (h : c ≠ '~') (cs : List Char) :
    decodeKey (c :: cs) = (decodeKey cs).map (c :: ·) := by
  rw [decodeKey.eq_def]
  split <;> simp_all

theorem decodeKey_encodeKey (key : List Char) : decodeKey (encodeKey key) = some key := by
  induction key with
  | nil => rfl
  | cons c cs ih =>
    unfold encodeKey
    split
    · simp_all [decodeKey]
    · split
      · simp_all [decodeKey]
      · rw [decodeKey_cons ‹_›, ih]; rfl

end Pointer

end FlowSuite
