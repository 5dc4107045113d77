import Pirc.Protocol.Message

/-!
# Terminal interface: styles

`tui/style.rs`: colours, attributes, and the sequence that sets them in a terminal.
-/

namespace Pirc.Tui

open Protocol (Str)

/-- Colours, by name or number. -/
inductive Color
  /-- That of the terminal. -/
  | default_
  | black
  | red
  | green
  | yellow
  | blue
  | magenta
  | cyan
  | white
  | brightBlack
  | brightRed
  | brightGreen
  | brightYellow
  | brightBlue
  | brightMagenta
  | brightCyan
  | brightWhite
  /-- One of a palette of 256. -/
  | palette (n : UInt8)
  | rgb (r g b : UInt8)
  deriving DecidableEq

namespace Color

def writeFgParam : Color → Str
  | default_ => "39".toList
  | black => "30".toList
  | red => "31".toList
  | green => "32".toList
  | yellow => "33".toList
  | blue => "34".toList
  | magenta => "35".toList
  | cyan => "36".toList
  | white => "37".toList
  | brightBlack => "90".toList
  | brightRed => "91".toList
  | brightGreen => "92".toList
  | brightYellow => "93".toList
  | brightBlue => "94".toList
  | brightMagenta => "95".toList
  | brightCyan => "96".toList
  | brightWhite => "97".toList
  | palette n => "38;5;".toList ++ Protocol.decimal n.toNat
  | rgb r g b =>
    "38;2;".toList ++ Protocol.decimal r.toNat ++ ';' :: Protocol.decimal g.toNat ++
      ';' :: Protocol.decimal b.toNat

def writeBgParam : Color → Str
  | default_ => "49".toList
  | black => "40".toList
  | red => "41".toList
  | green => "42".toList
  | yellow => "43".toList
  | blue => "44".toList
  | magenta => "45".toList
  | cyan => "46".toList
  | white => "47".toList
  | brightBlack => "100".toList
  | brightRed => "101".toList
  | brightGreen => "102".toList
  | brightYellow => "103".toList
  | brightBlue => "104".toList
  | brightMagenta => "105".toList
  | brightCyan => "106".toList
  | brightWhite => "107".toList
  | palette n => "48;5;".toList ++ Protocol.decimal n.toNat
  | rgb r g b =>
    "48;2;".toList ++ Protocol.decimal r.toNat ++ ';' :: Protocol.decimal g.toNat ++
      ';' :: Protocol.decimal b.toNat

end Color

/-- How a cell looks. -/
@[ext] structure Style where
  fg : Option Color
  bg : Option Color
  bold : Bool
  underline : Bool
  italic : Bool
  reverse : Bool
  deriving DecidableEq

namespace Style

def new : Style := ⟨none, none, false, false, false, false⟩

variable (s : Style)

def isEmpty : Bool := s.fg.isNone && s.bg.isNone && !s.bold && !s.underline && !s.italic && !s.reverse

theorem isEmpty_iff : s.isEmpty = true ↔ s = new := by
  obtain ⟨fg, bg, bold, underline, italic, reverse⟩ := s
  simp [isEmpty, new, and_assoc]

/-- The parameters that are set, in the order in which they are written. -/
def sgrParams : List Str :=
  (if s.bold then ["1".toList] else []) ++ (if s.italic then ["3".toList] else []) ++
    (if s.underline then ["4".toList] else []) ++ (if s.reverse then ["7".toList] else []) ++
    (s.fg.map Color.writeFgParam).toList ++ (s.bg.map Color.writeBgParam).toList

/-- The sequence that sets a style. -/
def writeSgr : Str :=
  if s.isEmpty then [] else "\x1b[".toList ++ [';'].intercalate s.sgrParams ++ ['m']

/-- The sequence that takes a style back. -/
def writeReset : Str := "\x1b[0m".toList

end Style

end Pirc.Tui
