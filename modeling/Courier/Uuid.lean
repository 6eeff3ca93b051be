/-
  Courier/Uuid.lean
  =================
  **Names that nobody else has.**

  A work item without a queue gets one of its own, whose name is a random
  identifier: sixteen random bytes, six bits of which say that they are random,
  in lower-case hexadecimal figures and five groups.
-/

namespace Courier.Uuid

/-- The sixteen bytes of an identifier made of random ones. -/
def marked (bytes : List UInt8) : List UInt8 :=
  (bytes.take 16).zipIdx.map fun (numbered : UInt8 × Nat) =>
    if numbered.2 = 6 then numbered.1 % 16 + 0x40
    else if numbered.2 = 8 then numbered.1 % 64 + 0x80
    else numbered.1

/-- A byte in two figures. -/
def figures (b : UInt8) : List Char :=
  [Nat.digitChar (b.toNat / 16), Nat.digitChar (b.toNat % 16)]

/-- The text of an identifier made of sixteen random bytes. -/
def ofRandom (bytes : List UInt8) : String :=
  String.ofList ((marked bytes).zipIdx.flatMap fun (numbered : UInt8 × Nat) =>
    (if [4, 6, 8, 10].contains numbered.2 then ['-'] else []) ++ figures numbered.1)

end Courier.Uuid
