import GraphQL.Text.Hidden

/-! Text in double quotes, as it stands in reports for developers. Quotes, backslashes
and line ends are escaped, and so is every hidden character. -/
namespace GraphQL.Quoted
open Hidden

def hex (n : Nat) : String := String.ofList (Nat.toDigits 16 n)

def escape (c : Char) : String :=
  match c with
  | '\x00' => "\\0"
  | '\t' => "\\t"
  | '\n' => "\\n"
  | '\r' => "\\r"
  | '"' => "\\\""
  | '\\' => "\\\\"
  | _ => if isHidden c then "\\u\x7b" ++ hex c.toNat ++ "\x7d" else String.singleton c

def quote (text : String) : String :=
  "\"" ++ String.join (text.toList.map escape) ++ "\""

end GraphQL.Quoted
