import YamlInclude.Pattern.CharClass

/-! # Properties of characters by name

Names are compared without letter case, spaces, hyphens and underscores.
-/

namespace YamlInclude

namespace CharClass

/-- A property name without what does not count. -/
def looseName (name : List Char) : String :=
  let cs := (name.filter fun c => c != ' ' && c != '-' && c != '_').map Char.toLower
  String.ofList (if ['i', 's'].isPrefixOf cs && cs.length != 2 then cs.drop 2 else cs)

/-- General categories, and groups of them, by their loose names. -/
def categories? (name : String) : Option (List GeneralCategory) :=
  match name with
  | "l" | "letter" => some [.lu, .ll, .lt, .lm, .lo]
  | "lc" | "casedletter" => some [.lu, .ll, .lt]
  | "m" | "mark" | "combiningmark" => some [.mn, .mc, .me]
  | "n" | "number" => some [.nd, .nl, .no]
  | "p" | "punctuation" | "punct" => some [.pc, .pd, .ps, .pe, .pi, .pf, .po]
  | "s" | "symbol" => some [.sm, .sc, .sk, .so]
  | "z" | "separator" => some [.zs, .zl, .zp]
  | "c" | "other" => some [.cc, .cf, .cs, .co, .cn]
  | "lu" | "uppercaseletter" => some [.lu]
  | "ll" | "lowercaseletter" => some [.ll]
  | "lt" | "titlecaseletter" => some [.lt]
  | "lm" | "modifierletter" => some [.lm]
  | "lo" | "otherletter" => some [.lo]
  | "mn" | "nonspacingmark" => some [.mn]
  | "mc" | "spacingmark" => some [.mc]
  | "me" | "enclosingmark" => some [.me]
  | "nd" | "decimalnumber" | "digit" => some [.nd]
  | "nl" | "letternumber" => some [.nl]
  | "no" | "othernumber" => some [.no]
  | "pc" | "connectorpunctuation" => some [.pc]
  | "pd" | "dashpunctuation" => some [.pd]
  | "ps" | "openpunctuation" => some [.ps]
  | "pe" | "closepunctuation" => some [.pe]
  | "pi" | "initialpunctuation" => some [.pi]
  | "pf" | "finalpunctuation" => some [.pf]
  | "po" | "otherpunctuation" => some [.po]
  | "sm" | "mathsymbol" => some [.sm]
  | "sc" | "currencysymbol" => some [.sc]
  | "sk" | "modifiersymbol" => some [.sk]
  | "so" | "othersymbol" => some [.so]
  | "zs" | "spaceseparator" => some [.zs]
  | "zl" | "lineseparator" => some [.zl]
  | "zp" | "paragraphseparator" => some [.zp]
  | "cc" | "control" | "cntrl" => some [.cc]
  | "cf" | "format" => some [.cf]
  | "cs" | "surrogate" => some [.cs]
  | "co" | "privateuse" => some [.co]
  | "cn" | "unassigned" => some [.cn]
  | _ => Option.none

def property? (name : List Char) : Option CharClass :=
  match looseName name with
  | "any" => some all
  | "ascii" => some (range (Char.ofNat 0) (Char.ofNat 0x7F))
  | "assigned" => some (negated (category [.cn]))
  | "whitespace" | "space" => some space
  | n => (categories? n).map category

def propertyValue? (name value : List Char) : Option CharClass :=
  if ["gc", "generalcategory"].contains (looseName name) then
    match looseName value with
    | "any" => some all
    | "ascii" => some (range (Char.ofNat 0) (Char.ofNat 0x7F))
    | "assigned" => some (negated (category [.cn]))
    | v => (categories? v).map category
  else Option.none

end CharClass

end YamlInclude
