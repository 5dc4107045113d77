import Pirc.Network.Chunks
import Pirc.Tui.Buffer
import Pirc.Tui.MessageBuffer

/-!
# Terminal interface: the chat area

`tui/chat_renderer.rs`: lines of a buffer become rows of the screen. A line begins with a timestamp
and a prefix, its text goes on in further rows that are indented, and rows are drawn from the bottom
of the area up. How much text goes into the first row is told by a fixed indent, and how much into
the others by the bytes of what the line begins with; what is right of the area is not drawn.
-/

namespace Pirc.Tui

open Protocol (Str decimal)
open Network (chunks)

/-! ## Styles -/

def styleTimestamp : Style := { Style.new with fg := some .brightBlack }
def styleAction : Style := { Style.new with bold := true, italic := true }
def styleNotice : Style := { Style.new with bold := true }
def styleJoin : Style := { Style.new with fg := some .green }
def stylePart : Style := { Style.new with fg := some .red }
def styleMode : Style := { Style.new with fg := some .yellow }
def styleSystem : Style := { Style.new with fg := some .cyan }
def styleError : Style := { Style.new with fg := some .red, bold := true }
def styleScrollIndicator : Style := { Style.new with bold := true, fg := some .yellow, reverse := true }

def nickColors : List Color := [.red, .green, .yellow, .blue, .magenta, .cyan, .brightRed, .brightGreen]

/-- The colour of a nickname, by a hash of 32 bits. -/
def nickColor (nick : Str) : Color :=
  let hash := (utf8 nick).foldl (fun acc b => acc * 31 + b.toUInt32) (0 : UInt32)
  nickColors.get ⟨hash.toNat % nickColors.length, Nat.mod_lt _ (by decide)⟩

def timestampWidth : ℕ := 8

/-! ## Rows of a line -/

/-- A region of the screen. -/
structure Rect where
  x : ℕ
  y : ℕ
  width : ℕ
  height : ℕ

/-- A row on the screen. -/
structure VisualLine where
  spans : List StyledSpan
  deriving DecidableEq

def VisualLine.chars (vline : VisualLine) : List (Char × Style) := vline.spans.flatMap StyledSpan.chars

/-- A text with blanks up to a width, which counts characters. -/
def padTo (text : Str) (width : ℕ) : Str := text ++ List.replicate (width - text.length) ' '

def formatPrefix (label : Str) (nickWidth : ℕ) : Str := padTo label (nickWidth + 2) ++ [' ']

/-- The time of a line as it is drawn. -/
def timestampText (line : BufferLine) : Str := '[' :: line.timestamp ++ "] ".toList

def senderText (line : BufferLine) : Str := line.sender.getD "???".toList

def reasonText (line : BufferLine) : Str :=
  if line.content = [] then [] else " (".toList ++ line.content ++ ")".toList

/-- The prefix of a line with its style, and its content; `none` is a panic. -/
def formatParts (line : BufferLine) (nickWidth : ℕ) : Option (Str × Style × List StyledSpan) :=
  let nick := senderText line
  let pre := fun label => formatPrefix label nickWidth
  match line.lineType with
  | .message => do
    let spans ← parseMircFormat line.content
    some (pre ('<' :: nick ++ ['>']), { Style.new with fg := some (nickColor nick) }, spans)
  | .action => some (pre ("* ".toList ++ nick), styleAction, [⟨line.content, styleAction⟩])
  | .notice => some (pre ('-' :: nick ++ ['-']), styleNotice, [⟨line.content, styleNotice⟩])
  | .join => some (pre "-->".toList, styleJoin, [⟨nick ++ " has joined".toList, styleJoin⟩])
  | .part =>
    some (pre "<--".toList, stylePart, [⟨nick ++ " has left".toList ++ reasonText line, stylePart⟩])
  | .quit =>
    some (pre "<--".toList, stylePart, [⟨nick ++ " has quit".toList ++ reasonText line, stylePart⟩])
  | .kick =>
    some (pre "<<<".toList, stylePart, [⟨nick ++ " was kicked".toList ++ reasonText line, stylePart⟩])
  | .mode => some (pre "===".toList, styleMode, [⟨line.content, styleMode⟩])
  | .topic => some (pre "===".toList, styleMode, [⟨"topic: ".toList ++ line.content, styleMode⟩])
  | .system => some (pre "***".toList, styleSystem, [⟨line.content, styleSystem⟩])
  | .error => some (pre "!!!".toList, styleError, [⟨line.content, styleError⟩])

def spansFrom (style : Style) (text : Str) : List (Char × Style) → List StyledSpan
  | [] => [⟨text, style⟩]
  | (ch, next) :: rest =>
    if next = style then spansFrom style (text ++ [ch]) rest else ⟨text, style⟩ :: spansFrom next [ch] rest

def charsToSpans : List (Char × Style) → List StyledSpan
  | [] => []
  | (ch, style) :: rest => spansFrom style [ch] rest

def wrappedLines (indentWidth wrapWidth : ℕ) (remaining : List (Char × Style)) : List VisualLine :=
  if 0 < wrapWidth then
    (chunks wrapWidth remaining).map fun chunk =>
      ⟨⟨List.replicate indentWidth ' ', .new⟩ :: charsToSpans chunk⟩
  else []

/-- **The rows of a line.** -/
def formatLine (line : BufferLine) (nickWidth regionWidth contentWidth : ℕ) : Option (List VisualLine) := do
  let timestamp := timestampText line
  let (pre, prefixStyle, contentSpans) ← formatParts line nickWidth
  let lead : List StyledSpan := [⟨timestamp, styleTimestamp⟩, ⟨pre, prefixStyle⟩]
  -- in bytes
  let indentWidth := (utf8 timestamp).length + (utf8 pre).length
  let contentChars := contentSpans.flatMap StyledSpan.chars
  if contentWidth = 0 ∨ regionWidth = 0 then some [⟨lead ++ contentSpans⟩]
  else
    let firstLineChars := contentChars.take contentWidth
    let remaining := contentChars.drop firstLineChars.length
    some (⟨lead ++ charsToSpans firstLineChars⟩ ::
      wrappedLines indentWidth (regionWidth - indentWidth) remaining)

/-! ## Drawing -/

def renderVisualLine (buf : Buffer) (startCol row maxWidth : ℕ) (vline : VisualLine) : Buffer :=
  buf.setRun row (startCol + maxWidth) startCol vline.chars

/-- Draw rows one below the other, up to a limit. -/
def drawLines (region : Rect) (limit : ℕ) : ℕ → List VisualLine → Buffer → Buffer
  | _, [], buf => buf
  | row, vline :: rest, buf =>
    if limit ≤ row then buf
    else drawLines region limit (row + 1) rest
      (renderVisualLine buf region.x (row % 2 ^ 16) region.width vline)

def renderScrollIndicator (buf : Buffer) (region : Rect) (messages : MessageBuffer) : Buffer :=
  let row := (region.y + region.height - 1) % 2 ^ 16
  let indicator := "-- ".toList ++ decimal messages.messages.length ++ " more --".toList
  let textLen := min (utf8 indicator).length region.width
  let start := region.x + (region.width - textLen) / 2
  buf.writeStr (start % 2 ^ 16) row indicator styleScrollIndicator

/-- The rows for lines; one is for the indicator where the buffer is scrolled up. -/
def availableRows (region : Rect) (messages : MessageBuffer) : ℕ :=
  if messages.isAtBottom then region.height else region.height - 1

/-- How much text goes into the first row of a line. -/
def contentWidth (region : Rect) (nickWidth : ℕ) : ℕ := region.width - (timestampWidth + nickWidth + 2)

/-- **Draw the lines in view**, from the bottom up. -/
def renderChatArea (buf : Buffer) (region : Rect) (messages : MessageBuffer) (nickWidth : ℕ) :
    Option Buffer :=
  let buf := buf.clearRegion region.x region.y region.width region.height .new
  if region.width = 0 ∨ region.height = 0 then some buf
  else
    let available := availableRows region messages
    if available = 0 then some (renderScrollIndicator buf region messages)
    else do
      let view := messages.messagesInView available
      let visualLines ← view.mapM fun line =>
        formatLine line nickWidth region.width (contentWidth region nickWidth)
      let totalVisual := (visualLines.map List.length).sum
      let skip := totalVisual - available
      let startRow := if totalVisual < available then region.y + (available - totalVisual) else region.y
      let buf := drawLines region (region.y + available) startRow (visualLines.flatten.drop skip) buf
      if messages.isAtBottom then some buf else some (renderScrollIndicator buf region messages)

/-! ## What is to be read -/

/-- What stands before the content of a line. -/
def prefixText (line : BufferLine) (nickWidth : ℕ) : Str :=
  formatPrefix
    (match line.lineType with
      | .message => '<' :: senderText line ++ ['>']
      | .action => "* ".toList ++ senderText line
      | .notice => '-' :: senderText line ++ ['-']
      | .join => "-->".toList
      | .part => "<--".toList
      | .quit => "<--".toList
      | .kick => "<<<".toList
      | .mode => "===".toList
      | .topic => "===".toList
      | .system => "***".toList
      | .error => "!!!".toList)
    nickWidth

/-- The content of a line, formatted. -/
def formattedContent (line : BufferLine) : Str :=
  match line.lineType with
  | .message => (items 0 line.content).flatMap Item.text
  | .join => senderText line ++ " has joined".toList
  | .part => senderText line ++ " has left".toList ++ reasonText line
  | .quit => senderText line ++ " has quit".toList ++ reasonText line
  | .kick => senderText line ++ " was kicked".toList ++ reasonText line
  | .topic => "topic: ".toList ++ line.content
  | .action | .notice | .mode | .system | .error => line.content

def leadWidth (line : BufferLine) (nickWidth : ℕ) : ℕ :=
  (timestampText line).length + (prefixText line nickWidth).length

/-- The bytes of timestamp and prefix, by which further rows are indented. -/
def indentWidth (line : BufferLine) (nickWidth : ℕ) : ℕ :=
  (utf8 (timestampText line)).length + (utf8 (prefixText line nickWidth)).length

def visualLines (region : Rect) (nickWidth : ℕ) (line : BufferLine) : List VisualLine :=
  (formatLine line nickWidth region.width (contentWidth region nickWidth)).getD []

/-- What is read in a row of a region, from behind so many columns up to the end of its text. -/
def readRow (buf : Buffer) (region : Rect) (row lead : ℕ) (vline : VisualLine) : Str :=
  (List.range (min vline.chars.length region.width - lead)).map fun i =>
    (buf.get (region.x + (lead + i)) row).ch

def readRows (buf : Buffer) (region : Rect) (lead : ℕ) : ℕ → List VisualLine → Str
  | _, [] => []
  | row, vline :: rest => readRow buf region row lead vline ++ readRows buf region lead (row + 1) rest

/-- **The text of a line that is visible**, in the rows from one on: behind the prefix in the first,
and behind the indent in the others. -/
def visibleContent (buf : Buffer) (region : Rect) (nickWidth : ℕ) (line : BufferLine) (row : ℕ) : Str :=
  match visualLines region nickWidth line with
  | [] => []
  | first :: rest =>
    readRow buf region row (leadWidth line nickWidth) first ++
      readRows buf region (indentWidth line nickWidth) (row + 1) rest

/-- **The widths with which nothing is lost**: what goes into the first row has room behind the
prefix, and there are columns behind the indent for the rest. -/
def KeepsContent (region : Rect) (nickWidth : ℕ) (line : BufferLine) : Prop :=
  let length := (formattedContent line).length
  let room := region.width - leadWidth line nickWidth
  if contentWidth region nickWidth = 0 then length ≤ room
  else
    min (contentWidth region nickWidth) length ≤ room ∧
      (length ≤ contentWidth region nickWidth ∨ indentWidth line nickWidth < region.width)

instance (region : Rect) (nickWidth : ℕ) (line : BufferLine) :
    Decidable (KeepsContent region nickWidth line) := by
  unfold KeepsContent
  infer_instance

/-! ## The rows of a line -/

theorem map_fst_chars (span : StyledSpan) : span.chars.map Prod.fst = span.text := by
  rw [StyledSpan.chars, List.map_map]
  exact List.map_id _

theorem map_fst_flatMap_chars (spans : List StyledSpan) :
    (spans.flatMap StyledSpan.chars).map Prod.fst = spans.flatMap StyledSpan.text := by
  rw [List.map_flatMap]
  exact congrArg (spans.flatMap ·) (funext map_fst_chars)

theorem spansFrom_chars (style : Style) (text : Str) (chars : List (Char × Style)) :
    (spansFrom style text chars).flatMap StyledSpan.chars = text.map (·, style) ++ chars := by
  induction chars generalizing style text with
  | nil => rfl
  | cons cell rest ih =>
    obtain ⟨ch, next⟩ := cell
    rw [spansFrom]
    split_ifs with h
    · rw [ih, List.map_append, List.append_assoc, h]
      rfl
    · rw [List.flatMap_cons, ih]
      rfl

theorem charsToSpans_chars (chars : List (Char × Style)) :
    (charsToSpans chars).flatMap StyledSpan.chars = chars := by
  cases chars with
  | nil => rfl
  | cons cell rest => exact spansFrom_chars _ _ _

theorem formatParts_eq (line : BufferLine) (nickWidth : ℕ) :
    ∃ style spans, formatParts line nickWidth = some (prefixText line nickWidth, style, spans) ∧
      spans.flatMap StyledSpan.text = formattedContent line := by
  unfold formatParts prefixText formattedContent
  cases line.lineType with
  | message =>
    obtain ⟨spans, hparse, -, htext, -⟩ := parseMircFormat_eq line.content
    refine ⟨{ Style.new with fg := some (nickColor (senderText line)) }, spans, ?_, htext⟩
    simp only [hparse, Option.bind_eq_bind, Option.bind_some]
  | _ => exact ⟨_, _, rfl, List.append_nil _⟩

/-- The text of a row in a width, behind so many columns. -/
def VisualLine.text (width lead : ℕ) (vline : VisualLine) :
    Str := ((vline.chars.map Prod.fst).take width).drop lead

/-- The text of a line, as far as it goes into its rows. -/
def shownContent (region : Rect) (nickWidth : ℕ) (line : BufferLine) : Str :=
  let room := region.width - leadWidth line nickWidth
  if contentWidth region nickWidth = 0 then (formattedContent line).take room
  else
    ((formattedContent line).take (contentWidth region nickWidth)).take room ++
      if indentWidth line nickWidth < region.width then
        (formattedContent line).drop (contentWidth region nickWidth)
      else []

theorem VisualLine.text_append {vline : VisualLine} {lead content : List (Char × Style)}
    (h : vline.chars = lead ++ content) (width : ℕ) :
    vline.text width lead.length = (content.map Prod.fst).take (width - lead.length) := by
  have hlead : (lead.map Prod.fst).length = lead.length := List.length_map _
  rw [VisualLine.text, h, List.map_append, List.drop_take, ← hlead, List.drop_left]

theorem wrappedLines_text (indentWidth width : ℕ) (remaining : List (Char × Style)) :
    (wrappedLines indentWidth (width - indentWidth) remaining).flatMap (VisualLine.text width indentWidth) =
      if indentWidth < width then remaining.map Prod.fst else [] := by
  unfold wrappedLines
  by_cases h : indentWidth < width
  · have htext : ∀ chunk ∈ chunks (width - indentWidth) remaining,
        VisualLine.text width indentWidth
          ⟨⟨List.replicate indentWidth ' ', .new⟩ :: charsToSpans chunk⟩ = chunk.map Prod.fst := by
      intro chunk hchunk
      have hshort : chunk.length ≤ width - indentWidth := by
        obtain ⟨i, -, rfl⟩ := List.mem_map.mp hchunk
        exact List.length_take_le _ _
      have hchars : VisualLine.chars ⟨⟨List.replicate indentWidth ' ', .new⟩ :: charsToSpans chunk⟩ =
          List.replicate indentWidth (' ', .new) ++ chunk := by
        rw [VisualLine.chars, List.flatMap_cons, charsToSpans_chars, StyledSpan.chars, List.map_replicate]
      have hread := VisualLine.text_append hchars width
      rw [List.length_replicate] at hread
      rw [hread, List.take_of_length_le (by rwa [List.length_map])]
    rw [if_pos (by omega), if_pos h, List.flatMap_map, List.flatMap_congr htext, List.flatMap_def,
      ← List.map_flatten, Network.chunks_flatten (by omega)]
  · rw [if_neg (by omega), if_neg h]
    rfl

/-- **The rows of a line** have the text that goes into them. -/
theorem formatLine_eq (region : Rect) (nickWidth : ℕ) (line : BufferLine) (hwidth : 0 < region.width) :
    ∃ first rest, formatLine line nickWidth region.width (contentWidth region nickWidth) = some
      (first :: rest) ∧ first.text region.width (leadWidth line nickWidth) ++
        rest.flatMap (VisualLine.text region.width (indentWidth line nickWidth)) =
          shownContent region nickWidth line := by
  obtain ⟨style, spans, hparts, htext⟩ := formatParts_eq line nickWidth
  have hcontent : (spans.flatMap StyledSpan.chars).map Prod.fst = formattedContent line := by
    rw [map_fst_flatMap_chars, htext]
  set lead : List StyledSpan := [⟨timestampText line, styleTimestamp⟩,
    ⟨prefixText line nickWidth, style⟩] with hlead
  have hlength : (lead.flatMap StyledSpan.chars).length = leadWidth line nickWidth := by
    rw [hlead]
    simp [StyledSpan.chars, leadWidth]
  have hline : formatLine line nickWidth region.width (contentWidth region nickWidth) =
      if contentWidth region nickWidth = 0 ∨ region.width = 0 then some [⟨lead ++ spans⟩]
      else
        some (⟨lead ++ charsToSpans ((spans.flatMap StyledSpan.chars).take
          (contentWidth region nickWidth))⟩ ::
          wrappedLines (indentWidth line nickWidth) (region.width - indentWidth line nickWidth)
            ((spans.flatMap StyledSpan.chars).drop
              ((spans.flatMap StyledSpan.chars).take (contentWidth region nickWidth)).length)) := by
    rw [formatLine, hparts]
    rfl
  unfold shownContent
  by_cases hzero : contentWidth region nickWidth = 0
  · have hchars : VisualLine.chars ⟨lead ++ spans⟩ =
        lead.flatMap StyledSpan.chars ++ spans.flatMap StyledSpan.chars := List.flatMap_append
    refine ⟨_, [], hline.trans (if_pos (.inl hzero)), ?_⟩
    rw [if_pos hzero, List.flatMap_nil, List.append_nil, ← hlength, VisualLine.text_append hchars, hcontent]
  · set first := (spans.flatMap StyledSpan.chars).take (contentWidth region nickWidth) with hfirst
    have hchars : VisualLine.chars ⟨lead ++ charsToSpans first⟩ = lead.flatMap StyledSpan.chars ++
        first := by
      rw [VisualLine.chars, List.flatMap_append, charsToSpans_chars]
    have hdrop : (spans.flatMap StyledSpan.chars).drop first.length =
        (spans.flatMap StyledSpan.chars).drop (contentWidth region nickWidth) := by
      rw [hfirst, List.length_take]
      rcases Nat.le_total (contentWidth region nickWidth) (spans.flatMap StyledSpan.chars).length with h | h
      · rw [Nat.min_eq_left h]
      · rw [Nat.min_eq_right h, List.drop_length, List.drop_of_length_le h]
    refine ⟨_, _, hline.trans (if_neg (by omega)), ?_⟩
    rw [if_neg hzero, ← hlength, VisualLine.text_append hchars, hlength, wrappedLines_text, hdrop,
      hfirst, List.map_take, List.map_drop, hcontent]

theorem formatLine_visualLines (region : Rect) (nickWidth : ℕ) (line : BufferLine)
    (hwidth : 0 < region.width) :
    formatLine line nickWidth region.width (contentWidth region nickWidth) =
      some (visualLines region nickWidth line) := by
  obtain ⟨first, rest, hline, -⟩ := formatLine_eq region nickWidth line hwidth
  rw [visualLines, hline]
  rfl

/-- What is read of a line that is formatted. -/
def readLine (region : Rect) (nickWidth : ℕ) (line : BufferLine) : Str :=
  match visualLines region nickWidth line with
  | [] => []
  | first :: rest =>
    first.text region.width (leadWidth line nickWidth) ++
      rest.flatMap (VisualLine.text region.width (indentWidth line nickWidth))

theorem readLine_eq (region : Rect) (nickWidth : ℕ) (line : BufferLine) (hwidth : 0 < region.width) :
    readLine region nickWidth line = shownContent region nickWidth line := by
  obtain ⟨first, rest, hline, htext⟩ := formatLine_eq region nickWidth line hwidth
  rw [readLine, visualLines, hline]
  exact htext

/-- **What is lost**: nothing, if the widths are such. -/
theorem shownContent_eq_iff (region : Rect) (nickWidth : ℕ) (line : BufferLine) :
    shownContent region nickWidth line = formattedContent line ↔ KeepsContent region nickWidth line := by
  have htake : ∀ n, (formattedContent line).take n = formattedContent line ↔
      (formattedContent line).length ≤ n :=
    fun n => List.take_eq_self_iff _
  unfold shownContent KeepsContent
  dsimp only
  split_ifs with hzero hindent
  · exact htake _
  · rw [List.take_take]
    constructor
    · intro h
      have hlength := congrArg List.length h
      rw [List.length_append, List.length_take, List.length_drop] at hlength
      exact ⟨by omega, .inr hindent⟩
    · rintro ⟨hroom, -⟩
      rcases Nat.le_total (contentWidth region nickWidth) (formattedContent line).length with hle | hle
      · rw [Nat.min_eq_right (by omega), List.take_append_drop]
      · rw [(htake _).mpr (by omega), List.drop_of_length_le hle, List.append_nil]
  · rw [List.take_take, List.append_nil, htake]
    constructor
    · intro h
      exact ⟨by omega, .inl (by omega)⟩
    · rintro ⟨hroom, hlength | hindent'⟩
      · omega
      · exact absurd hindent' hindent

/-! ## Rows on the screen -/

/-- The row of a region has the characters of a line, as far as they go. -/
def Drawn (buf : Buffer) (region : Rect) (row : ℕ) (vline : VisualLine) : Prop :=
  ∀ i (hi : i < vline.chars.length), i < region.width →
    (buf.get (region.x + i) row).ch = (vline.chars.get ⟨i, hi⟩).1

section Drawing

variable {buf buf' : Buffer} {region : Rect} {row limit lead : ℕ} {vline : VisualLine}

theorem Drawn.of_same_row (h : Drawn buf region row vline)
    (hsame : ∀ c, buf'.get c row = buf.get c row) : Drawn buf' region row vline :=
  fun i hi hwidth => (congrArg Cell.ch (hsame _)).trans (h i hi hwidth)

theorem Drawn.readRow_eq (h : Drawn buf region row vline) (lead : ℕ) :
    readRow buf region row lead vline = vline.text region.width lead := by
  have hlength : (vline.text region.width lead).length = min vline.chars.length region.width - lead := by
    rw [VisualLine.text, List.length_drop, List.length_take, List.length_map, Nat.min_comm]
  refine List.ext_getElem (by rw [hlength, readRow, List.length_map, List.length_range]) fun i hi hi' => ?_
  rw [hlength] at hi'
  have hchar := h (lead + i) (by omega) (by omega)
  simp only [readRow, List.getElem_map, List.getElem_range, VisualLine.text, List.getElem_drop,
    List.getElem_take]
  exact hchar

theorem readRows_eq {rest : List VisualLine}
    (h : ∀ j vline, rest[j]? = some vline → Drawn buf region (row + j) vline) (lead : ℕ) :
    readRows buf region lead row rest = rest.flatMap (VisualLine.text region.width lead) := by
  induction rest generalizing row with
  | nil => rfl
  | cons vline rest ih =>
    have hfirst : Drawn buf region row vline := h 0 vline rfl
    have hrest : ∀ j vline, rest[j]? = some vline → Drawn buf region (row + 1 + j) vline := by
      intro j vline hj
      rw [Nat.add_assoc, Nat.add_comm 1]
      exact h (j + 1) vline hj
    rw [readRows, hfirst.readRow_eq, ih hrest, List.flatMap_cons]

theorem renderVisualLine_size (buf : Buffer) (row : ℕ) (vline : VisualLine)
    (startCol maxWidth : ℕ) : (renderVisualLine buf startCol row maxWidth vline).width = buf.width ∧
      (renderVisualLine buf startCol row maxWidth vline).height = buf.height := Buffer.setRun_size _ _ _ _ _

theorem drawn_renderVisualLine (hcols : region.x + region.width ≤ buf.width) (hrow : row < buf.height) :
    Drawn (renderVisualLine buf region.x row region.width vline) region row vline := by
  intro i hi hwidth
  have hlimit := buf.width_lt
  rw [renderVisualLine, Buffer.get_setRun row (by omega),
    dif_pos ⟨rfl, by omega, hrow, by omega, by omega, by omega⟩]
  simp

theorem get_renderVisualLine_of_ne (hcols : region.x + region.width ≤ buf.width) {c r : ℕ} (hr : r ≠ row) :
    (renderVisualLine buf region.x row region.width vline).get c r = buf.get c r := by
  have hlimit := buf.width_lt
  rw [renderVisualLine, Buffer.get_setRun row (by omega), dif_neg fun h => hr h.1]

theorem get_drawLines_above (hcols : region.x + region.width ≤ buf.width)
    (hlimit : limit ≤ buf.height) (rows : List VisualLine) {c r : ℕ} (hr : r < row) :
    (drawLines region limit row rows buf).get c r = buf.get c r := by
  induction rows generalizing row buf with
  | nil => rfl
  | cons vline rest ih =>
    rw [drawLines]
    split_ifs with hstop
    · rfl
    · have hcast : row % 2 ^ 16 = row := Nat.mod_eq_of_lt (by have := buf.height_lt; omega)
      obtain ⟨hwidth, hheight⟩ := renderVisualLine_size buf row vline region.x
        region.width
      rw [hcast, ih (hcols.trans_eq hwidth.symm) (hlimit.trans_eq hheight.symm) (by omega),
        get_renderVisualLine_of_ne hcols (by omega)]

theorem height_drawLines (rows : List VisualLine) :
    (drawLines region limit row rows buf).height = buf.height := by
  induction rows generalizing row buf with
  | nil => rfl
  | cons vline rest ih =>
    rw [drawLines]
    split_ifs with hstop
    · rfl
    · exact ih.trans (renderVisualLine_size _ _ _ region.x region.width).2

/-- **Rows are read as they were drawn.** -/
theorem drawn_drawLines (hcols : region.x + region.width ≤ buf.width) (hlimit : limit ≤ buf.height)
    (rows : List VisualLine) (hrows : row + rows.length ≤ limit) {j : ℕ} (hj : rows[j]? = some vline) :
    Drawn (drawLines region limit row rows buf) region (row + j) vline := by
  induction rows generalizing row buf j with
  | nil => cases hj
  | cons first rest ih =>
    rw [List.length_cons] at hrows
    have hcast : row % 2 ^ 16 = row := Nat.mod_eq_of_lt (by have := buf.height_lt; omega)
    obtain ⟨hwidth, hheight⟩ := renderVisualLine_size buf row first region.x
      region.width
    rw [drawLines, if_neg (by omega), hcast]
    cases j with
    | zero =>
      obtain rfl : first = vline := Option.some.inj hj
      refine (drawn_renderVisualLine hcols (by omega)).of_same_row fun c => ?_
      exact get_drawLines_above (hcols.trans_eq hwidth.symm) (hlimit.trans_eq hheight.symm) rest
        (Nat.lt_succ_self _)
    | succ j =>
      have hfit : row + 1 + rest.length ≤ limit := by omega
      have hnext := ih (hcols.trans_eq hwidth.symm) (hlimit.trans_eq hheight.symm) hfit hj
      rwa [Nat.add_assoc, Nat.add_comm 1] at hnext

theorem get_renderScrollIndicator (messages : MessageBuffer) (hrows : region.y + region.height ≤ buf.height)
    {c r : ℕ} (hr : r < region.y + region.height - 1) :
    (renderScrollIndicator buf region messages).get c r = buf.get c r := by
  have hcast : (region.y + region.height - 1) % 2 ^ 16 = region.y + region.height - 1 :=
    Nat.mod_eq_of_lt (by have := buf.height_lt; omega)
  unfold renderScrollIndicator Buffer.writeStr
  dsimp only
  split_ifs
  · rfl
  · rw [Buffer.get_setRun _ (Nat.le_of_lt buf.width_lt), dif_neg]
    rintro ⟨rfl, -⟩
    omega

end Drawing

/-! ## The chat area -/

def rowCount (region : Rect) (nickWidth : ℕ) (lines : List BufferLine) : ℕ :=
  (lines.flatMap (visualLines region nickWidth)).length

def firstRow (region : Rect) (messages : MessageBuffer) (nickWidth : ℕ) (lines : List BufferLine) : ℕ :=
  region.y + availableRows region messages - rowCount region nickWidth lines

section ChatArea

variable (buf : Buffer) (region : Rect) (messages : MessageBuffer) (nickWidth : ℕ)

/-- The rows of the lines in view. -/
def viewRows : List VisualLine :=
  (messages.messagesInView (availableRows region messages)).flatMap (visualLines region nickWidth)

/-- The row of the area in which the first of them is drawn that is. -/
def startRow : ℕ :=
  if (viewRows region messages nickWidth).length < availableRows region messages then
    region.y + (availableRows region messages - (viewRows region messages nickWidth).length)
  else region.y

def drawnRows : Buffer :=
  drawLines region (region.y + availableRows region messages) (startRow region messages nickWidth)
    ((viewRows region messages nickWidth).drop
      ((viewRows region messages nickWidth).length - availableRows region messages))
    (buf.clearRegion region.x region.y region.width region.height .new)

theorem renderChatArea_eq (hwidth : 0 < region.width) (hpos : 0 < availableRows region messages) :
    renderChatArea buf region messages nickWidth =
      if messages.isAtBottom then some (drawnRows buf region messages nickWidth)
      else some (renderScrollIndicator (drawnRows buf region messages nickWidth) region messages) := by
  have hheight : region.height ≠ 0 := by
    unfold availableRows at hpos
    split_ifs at hpos <;> omega
  have hformat : ∀ view : List BufferLine, (view.mapM fun line =>
      formatLine line nickWidth region.width (contentWidth region nickWidth)) =
        some (view.map (visualLines region nickWidth)) := by
    intro view
    rw [funext fun l => formatLine_visualLines region nickWidth l hwidth]
    exact List.mapM_pure
  have hsum : ∀ view : List BufferLine, ((view.map (visualLines region nickWidth)).map List.length).sum =
      (view.flatMap (visualLines region nickWidth)).length := by
    intro view
    rw [List.length_flatMap, List.map_map]
    rfl
  rw [renderChatArea]
  dsimp only
  rw [if_neg (by omega), if_neg hpos.ne', hformat]
  simp only [Option.bind_eq_bind, Option.bind_some, hsum]
  rfl

variable {buf region messages nickWidth} {before after : List BufferLine} {line : BufferLine}

theorem availableRows_le : availableRows region messages ≤ region.height := by
  unfold availableRows
  split_ifs <;> omega

theorem rowCount_pos (hwidth : 0 < region.width) (after : List BufferLine) :
    0 < rowCount region nickWidth (line :: after) := by
  obtain ⟨first, rest, hline, -⟩ := formatLine_eq region nickWidth line hwidth
  rw [formatLine_visualLines region nickWidth line hwidth] at hline
  rw [rowCount, List.flatMap_cons, Option.some.inj hline, List.length_append, List.length_cons]
  omega

/-- **The rows of a line are drawn**, if there are enough of them in the area. -/
theorem drawn_drawnRows (hcols : region.x + region.width ≤ buf.width)
    (hrows : region.y + region.height ≤ buf.height)
    (hview : messages.messagesInView (availableRows region messages) = before ++ line :: after)
    (hheight : rowCount region nickWidth (line :: after) ≤ availableRows region messages) {j : ℕ}
    {vline : VisualLine} (hj : (visualLines region nickWidth line)[j]? = some vline) :
    Drawn (drawnRows buf region messages nickWidth) region
      (firstRow region messages nickWidth (line :: after) + j) vline := by
  obtain ⟨hcleared, hcleared'⟩ := buf.clearRegion_size region.x region.y region.width region.height .new
  have hle : availableRows region messages ≤ region.height := availableRows_le
  have hall : viewRows region messages nickWidth = before.flatMap (visualLines region nickWidth) ++
      (line :: after).flatMap (visualLines region nickWidth) := by
    rw [viewRows, hview, List.flatMap_append]
  have hcount : (viewRows region messages nickWidth).length =
      rowCount region nickWidth before + rowCount region nickWidth (line :: after) := by
    rw [hall, List.length_append]
    rfl
  -- where the row is among those that are drawn
  set skip := (viewRows region messages nickWidth).length - availableRows region messages with hskip
  have hindex : ((viewRows region messages nickWidth).drop skip)[rowCount region nickWidth before +
      j - skip]? = some vline := by
    have hjlt := (List.getElem?_eq_some_iff.mp hj).1
    have hsum : skip + (rowCount region nickWidth before + j - skip) =
        (before.flatMap (visualLines region nickWidth)).length + j := by
      rw [rowCount] at hcount ⊢
      omega
    rw [List.getElem?_drop, hsum, hall, List.getElem?_append_right (Nat.le_add_right _ _),
      Nat.add_sub_cancel_left, List.flatMap_cons, List.getElem?_append_left hjlt, hj]
  have hrow : firstRow region messages nickWidth (line :: after) + j =
      startRow region messages nickWidth + (rowCount region nickWidth before + j - skip) := by
    rw [firstRow, startRow]
    split_ifs <;> omega
  have hfit : startRow region messages nickWidth + ((viewRows region messages nickWidth).drop skip).length ≤
      region.y + availableRows region messages := by
    rw [List.length_drop, startRow]
    split_ifs <;> omega
  rw [hrow]
  exact drawn_drawLines (hcols.trans_eq hcleared.symm) (le_trans (by omega) hcleared'.ge) _ hfit hindex

theorem drawn_renderChatArea (hcols : region.x + region.width ≤ buf.width)
    (hrows : region.y + region.height ≤ buf.height)
    (hview : messages.messagesInView (availableRows region messages) = before ++ line :: after)
    (hwidth : 0 < region.width)
    (hheight : rowCount region nickWidth (line :: after) ≤ availableRows region messages) :
    ∃ buf', renderChatArea buf region messages nickWidth = some buf' ∧
      ∀ j vline, (visualLines region nickWidth line)[j]? = some vline →
        Drawn buf' region (firstRow region messages nickWidth (line :: after) + j) vline := by
  have hpos := (rowCount_pos hwidth after).trans_le hheight
  have hrun := renderChatArea_eq buf region messages nickWidth hwidth hpos
  by_cases hbottom : messages.isAtBottom = true
  · exact ⟨_, hrun.trans (if_pos hbottom), fun j vline hj => drawn_drawnRows hcols hrows hview hheight hj⟩
  · refine ⟨_, hrun.trans (if_neg hbottom), fun j vline hj =>
      (drawn_drawnRows hcols hrows hview hheight hj).of_same_row fun c => ?_⟩
    -- the indicator is below the rows
    have hjlt : j < rowCount region nickWidth (line :: after) := by
      rw [rowCount, List.flatMap_cons, List.length_append]
      exact Nat.lt_add_right _ (List.getElem?_eq_some_iff.mp hj).1
    have hless : availableRows region messages = region.height - 1 := by rw [availableRows, if_neg hbottom]
    have hsize : (drawnRows buf region messages nickWidth).height = buf.height :=
      (height_drawLines _).trans (buf.clearRegion_size _ _ _ _ _).2
    refine get_renderScrollIndicator messages (hrows.trans_eq hsize.symm) ?_
    rw [firstRow]
    omega

/-- **Which lines are shown with the whole of their text**, for every line in view whose rows, and
those of the lines below it, are not too many. -/
theorem visibleContent_iff (buf : Buffer) (region : Rect) (messages : MessageBuffer) (nickWidth : ℕ)
    (before after : List BufferLine) (line : BufferLine) (hcols : region.x + region.width ≤ buf.width)
    (hrows : region.y + region.height ≤ buf.height)
    (hview : messages.messagesInView (availableRows region messages) = before ++ line :: after)
    (hwidth : leadWidth line nickWidth < region.width)
    (hheight : rowCount region nickWidth (line :: after) ≤ availableRows region messages) :
    ∃ buf', renderChatArea buf region messages nickWidth = some buf' ∧
      (visibleContent buf' region nickWidth line (firstRow region messages nickWidth (line :: after)) =
          formattedContent line ↔ KeepsContent region nickWidth line) := by
  have hpos : 0 < region.width := Nat.zero_lt_of_lt hwidth
  obtain ⟨buf', hrun, hdrawn⟩ := drawn_renderChatArea hcols hrows hview hpos hheight
  refine ⟨buf', hrun, ?_⟩
  obtain ⟨first, rest, hline, -⟩ := formatLine_eq region nickWidth line hpos
  have hvisual : visualLines region nickWidth line = first :: rest :=
    Option.some.inj ((formatLine_visualLines region nickWidth line hpos).symm.trans hline)
  rw [hvisual] at hdrawn
  set row := firstRow region messages nickWidth (line :: after)
  have hfirst : Drawn buf' region row first := hdrawn 0 first rfl
  have hrest : ∀ j vline, rest[j]? = some vline → Drawn buf' region (row + 1 + j) vline := by
    intro j vline hj
    rw [Nat.add_assoc, Nat.add_comm 1]
    exact hdrawn (j + 1) vline hj
  have hread : visibleContent buf' region nickWidth line row = readLine region nickWidth line := by
    rw [visibleContent, readLine, hvisual]
    dsimp only
    rw [hfirst.readRow_eq, readRows_eq hrest]
  rw [hread, readLine_eq region nickWidth line hpos, shownContent_eq_iff]

def wrappedMessage : BufferLine :=
  ⟨"12:00".toList, some "alice".toList, "all of this text is to be shown".toList, .message⟩

def smallRegion : Rect := ⟨0, 0, 40, 3⟩

def oneMessage : MessageBuffer := (MessageBuffer.new 10).pushMessage wrappedMessage

/-- A line that fits its row, below the other. -/
def shortMessage : BufferLine :=
  ⟨"12:01".toList, some "bob".toList, "all of this".toList, .message⟩

def twoMessages : MessageBuffer := oneMessage.pushMessage shortMessage

theorem shortMessage_shown :
    ∃ buf', renderChatArea (.new 40 5) ⟨0, 1, 40, 4⟩ twoMessages 12 = some buf' ∧
      visibleContent buf' ⟨0, 1, 40, 4⟩ 12 shortMessage
          (firstRow ⟨0, 1, 40, 4⟩ twoMessages 12 [shortMessage]) =
        formattedContent shortMessage := by
  obtain ⟨buf', hrun, hiff⟩ := visibleContent_iff (.new 40 5) ⟨0, 1, 40, 4⟩ twoMessages 12
    [wrappedMessage] [] shortMessage (by decide) (by decide) (by decide +kernel) (by decide +kernel)
    (by decide +kernel)
  exact ⟨buf', hrun, hiff.mpr (by decide +kernel)⟩

/-- The last character of its first row is not drawn. -/
theorem wrappedMessage_clipped :
    leadWidth wrappedMessage 12 < smallRegion.width ∧
      rowCount smallRegion 12 [wrappedMessage] ≤ availableRows smallRegion oneMessage ∧
      (renderChatArea (.new 40 3) smallRegion oneMessage 12).map (fun buf' =>
          visibleContent buf' smallRegion 12 wrappedMessage
            (firstRow smallRegion oneMessage 12 [wrappedMessage])) =
        some "all of this text s to be shown".toList ∧
      formattedContent wrappedMessage = "all of this text is to be shown".toList := by
  decide +kernel

end ChatArea

end Pirc.Tui
