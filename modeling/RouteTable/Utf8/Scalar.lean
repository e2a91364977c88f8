import RouteTable.Utf8.Basic

/-!
# Scalar values of UTF-8 texts

* `Utf8.decode?`: the scalar values that a well-formed text encodes
-/

namespace RouteTable.Utf8

def payload (b : UInt8) : Nat :=
  (b &&& 0x3F).toNat

/-- The scalar values of a text, or `none` if it is not well-formed UTF-8. -/
def decode? : Bytes → Option (List Char)
  | [] => some []
  | lead :: rest =>
    match sequenceLength lead, rest with
    | 1, rest => (decode? rest).map (Char.ofNat lead.toNat :: ·)
    | 2, b₁ :: rest =>
      if isContinuation b₁ then
        (decode? rest).map (Char.ofNat ((lead &&& 0x1F).toNat * 64 + payload b₁) :: ·)
      else none
    | 3, b₁ :: b₂ :: rest =>
      if allowsSecond lead b₁ && isContinuation b₂ then
        (decode? rest).map
          (Char.ofNat (((lead &&& 0x0F).toNat * 64 + payload b₁) * 64 + payload b₂) :: ·)
      else none
    | 4, b₁ :: b₂ :: b₃ :: rest =>
      if allowsSecond lead b₁ && isContinuation b₂ && isContinuation b₃ then
        (decode? rest).map
          (Char.ofNat ((((lead &&& 0x07).toNat * 64 + payload b₁) * 64 + payload b₂) * 64 +
            payload b₃) :: ·)
      else none
    | _, _ => none

end RouteTable.Utf8
