/-!
# Bytes of a text

Places in a text are told to its writer in bytes of its UTF-8 form. The number of bytes of a text
is the sum over its characters, so it can be spoken of without ever encoding anything, and it is
the number that the core library counts (`utf8ByteSize_ofList`).
-/

namespace PathFilter.Text

/-- The number of bytes that characters take. -/
def byteLength : List Char → Nat
  | [] => 0
  | c :: cs => c.utf8Size + byteLength cs

@[simp] theorem byteLength_nil : byteLength [] = 0 := rfl

@[simp] theorem byteLength_cons (c : Char) (cs : List Char) :
    byteLength (c :: cs) = c.utf8Size + byteLength cs := rfl

/-- The number of bytes that the core library counts. -/
theorem utf8ByteSize_ofList (cs : List Char) :
    (String.ofList cs).utf8ByteSize = byteLength cs := by
  induction cs with
  | nil => rfl
  | cons c cs ih =>
    rw [String.ofList_cons, String.utf8ByteSize_append, String.utf8ByteSize_singleton, ih,
      byteLength_cons]

end PathFilter.Text
