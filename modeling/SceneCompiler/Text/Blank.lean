/-!
Blank characters: the white space and line terminators that trimming removes.
-/

namespace SceneCompiler.Text

def isBlankChar (c : Char) : Bool :=
  let n := c.toNat
  (0x09 ≤ n && n ≤ 0x0D) || n == 0x20 || n == 0xA0 || n == 0x1680 ||
  (0x2000 ≤ n && n ≤ 0x200A) || n == 0x2028 || n == 0x2029 || n == 0x202F ||
  n == 0x205F || n == 0x3000 || n == 0xFEFF

def isBlank (s : String) : Bool :=
  s.toList.all isBlankChar

def present? : Option String → Option String
  | some s => if isBlank s then none else some s
  | none => none

def trimEnd (s : String) : String :=
  String.ofList (s.toList.reverse.dropWhile isBlankChar).reverse

def trim (chars : List Char) : List Char :=
  ((chars.dropWhile isBlankChar).reverse.dropWhile isBlankChar).reverse

end SceneCompiler.Text
