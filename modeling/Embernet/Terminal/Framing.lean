import Mathlib.Data.List.TakeWhile
import Embernet.Model.Mcp
/-!
# MCP framing — every mixture of frames is read back

A frame ends where the reader stops: a line at its line feed, a body at
the length its header gives. So the frames of a stream are read one after
another, whatever the bodies hold. `Header` and `LengthHeader` say which
header lines a frame may have.
-/

set_option autoImplicit false

namespace Embernet

namespace Mcp

/-! ## Frames -/

/-- How a line is ended. -/
inductive Ending
  | lf
  | crlf

/-- The text it stands for. -/
def Ending.text : Ending → String
  | lf => "\n"
  | crlf => "\r\n"

/-- A header of another name. -/
structure Header where
  text : String
  ending : Ending
  oneLine : OneLine text
  visible : ∃ c ∈ text.toList, c ≠ '\r'
  no_brace : text.toList.head? ≠ some '{'
  other : ∀ name value, splitOnce ':' text = some (name, value) →
    eqIgnoreAsciiCase name "Content-Length" = false

/-- The header with the length: its name in some case, and what stands
around the number. -/
structure LengthHeader where
  name : String
  before : String
  after : String
  ending : Ending
  named : eqIgnoreAsciiCase name "Content-Length" = true
  blank_before : ∀ c ∈ before.toList, c = ' ' ∨ c = '\t'
  blank_after : ∀ c ∈ after.toList, c = ' ' ∨ c = '\t'

/-- A line of the stream. -/
def lineOf (text : String) (ending : Ending) : Bytes := utf8 (text ++ ending.text)

/-- The line of the header. -/
def Header.bytes (h : Header) : Bytes := lineOf h.text h.ending

/-- What the header holds behind the colon. -/
def LengthHeader.value (h : LengthHeader) (n : ℕ) : String := h.before ++ n.repr ++ h.after

/-- The text of the header for a length. -/
def LengthHeader.text (h : LengthHeader) (n : ℕ) : String := h.name ++ ":" ++ h.value n

/-- The line of the header for a length. -/
def LengthHeader.bytes (h : LengthHeader) (n : ℕ) : Bytes := lineOf (h.text n) h.ending

/-- A message in one of the two framings. -/
inductive Frame
  | headed (before : List Header) (length : LengthHeader) (after : List Header) (ending : Ending)
      (body : Bytes) (fits : body.length ≤ maxMcpMessageBytes)
  | line (text : String) (ending : Ending) (oneLine : OneLine text)
      (brace : text.toList.head? = some '{') (last : text.toList.getLast? ≠ some '\r')
      (fits : (utf8 text).length ≤ maxMcpMessageBytes)

/-- What a reader gets of the frame. -/
def Frame.body : Frame → Bytes
  | headed _ _ _ _ body _ => body
  | line text _ _ _ _ _ => utf8 text

/-- The frame on the stream. -/
def Frame.bytes : Frame → Bytes
  | headed before length after ending body _ =>
    before.flatMap Header.bytes ++ length.bytes body.length ++ after.flatMap Header.bytes ++
      lineOf "" ending ++ body
  | line text ending _ _ _ _ => lineOf text ending

/-- The stream is read as these bodies, and then as `None`. -/
def Reads (stream : Bytes) : List Bytes → Prop
  | [] => readMcpMessage stream = .ok (none, [])
  | body :: bodies => ∃ rest, readMcpMessage stream = .ok (some body, rest) ∧ Reads rest bodies

/-! ## Lines of the stream -/

theorem takeLine_append {line : Bytes} (h : (0x0a : UInt8) ∉ line) (rest : Bytes) :
    takeLine (line ++ 0x0a :: rest) = (line ++ [0x0a], rest) := by
  induction line with
  | nil => rfl
  | cons b line ih =>
    have hb : b ≠ 0x0a := fun hb => h (hb ▸ List.mem_cons_self)
    rw [List.cons_append, takeLine, if_neg hb, ih fun hmem => h (List.mem_cons_of_mem _ hmem)]
    rfl

/-- The text of a line, and its line feed. -/
theorem lineOf_eq {text : String} (h : OneLine text) (ending : Ending) :
    ∃ line, lineOf text ending = line ++ [0x0a] ∧ (0x0a : UInt8) ∉ line := by
  cases ending with
  | lf =>
    refine ⟨utf8 text, ?_, newline_not_mem_utf8 h⟩
    rw [lineOf, utf8_append]
    rfl
  | crlf =>
    refine ⟨utf8 (text ++ "\r"), ?_, newline_not_mem_utf8 (oneLine_append h (by decide))⟩
    rw [lineOf, utf8_append, utf8_append, List.append_assoc]
    rfl

theorem takeLine_lineOf {text : String} (h : OneLine text) (ending : Ending) (stream : Bytes) :
    takeLine (lineOf text ending ++ stream) = (lineOf text ending, stream) := by
  obtain ⟨line, heq, hline⟩ := lineOf_eq h ending
  rw [heq, List.append_assoc]
  exact takeLine_append hline stream

theorem lineOf_ne_nil {text : String} (h : OneLine text) (ending : Ending) (stream : Bytes) :
    lineOf text ending ++ stream ≠ [] := by
  obtain ⟨line, heq, -⟩ := lineOf_eq h ending
  simp [heq]

section Loop

variable {text : String} {ending : Ending} {contentLength : Option ℕ}

/-- **One line of the loop**, when the line is the message. -/
theorem readHeaders_message {body : Bytes} (h : OneLine text)
    (hturn : turn contentLength (text ++ ending.text) = .ok (.message body)) (stream : Bytes) :
    readHeaders contentLength (lineOf text ending ++ stream) = .ok (some body, stream) := by
  rw [readHeaders, dif_neg (lineOf_ne_nil h ending stream), takeLine_lineOf h]
  simp only [lineOf, fromUtf8_utf8, hturn]
  rfl

/-- When the headers are over. -/
theorem readHeaders_over (h : OneLine text)
    (hturn : turn contentLength (text ++ ending.text) = .ok .over) (stream : Bytes) :
    readHeaders contentLength (lineOf text ending ++ stream) = readBody contentLength stream := by
  rw [readHeaders, dif_neg (lineOf_ne_nil h ending stream), takeLine_lineOf h]
  simp only [lineOf, fromUtf8_utf8, hturn]

/-- When it is a header. -/
theorem readHeaders_header {length : Option ℕ} (h : OneLine text)
    (hturn : turn contentLength (text ++ ending.text) = .ok (.header length)) (stream : Bytes) :
    readHeaders contentLength (lineOf text ending ++ stream) = readHeaders length stream := by
  rw [readHeaders, dif_neg (lineOf_ne_nil h ending stream), takeLine_lineOf h]
  simp only [lineOf, fromUtf8_utf8, hturn]

end Loop

/-! ## What is left of a line -/

/-- A character that ends lines. -/
def endsLine (c : Char) : Bool := c == '\r' || c == '\n'

/-- **What ends a line is cut off**, with every carriage return before it. -/
theorem trimLineEnd_append {text ends : String} (h : ∀ c ∈ ends.toList, endsLine c = true) :
    trimLineEnd (text ++ ends) = trimLineEnd text := by
  have hends : ends.toList.reverse.dropWhile endsLine = [] := by
    rw [List.dropWhile_eq_nil_iff]
    intro c hc
    exact h c (List.mem_reverse.1 hc)
  show String.ofList ((text ++ ends).toList.reverse.dropWhile endsLine).reverse = _
  rw [String.toList_append, List.reverse_append, List.dropWhile_append, hends]
  rfl

theorem endsLine_of_mem_ending {ending : Ending} :
    ∀ c ∈ ending.text.toList, endsLine c = true := by
  cases ending <;> simp [Ending.text, endsLine]

/-- A text that does not end so is left as it is. -/
theorem trimLineEnd_self {text : String} (h : ∀ c ∈ text.toList.getLast?, endsLine c = false) :
    trimLineEnd text = text := by
  show String.ofList (text.toList.reverse.dropWhile endsLine).reverse = text
  have hkeep : text.toList.reverse.dropWhile endsLine = text.toList.reverse := by
    rcases htext : text.toList.reverse with _ | ⟨c, chars⟩
    · rfl
    · have hlast : text.toList.getLast? = some c := by
        rw [← List.head?_reverse, htext]
        rfl
      rw [List.dropWhile_cons, h c hlast]
      rfl
  rw [hkeep, List.reverse_reverse, String.ofList_toList]

/-- The text is what is left of it, and carriage returns. -/
theorem exists_trimLineEnd (text : String) :
    ∃ ends, text.toList = (trimLineEnd text).toList ++ ends ∧ ∀ c ∈ ends, endsLine c = true := by
  refine ⟨(text.toList.reverse.takeWhile endsLine).reverse, ?_, ?_⟩
  · have hsplit := List.takeWhile_append_dropWhile (p := endsLine) (l := text.toList.reverse)
    have hreverse := congrArg List.reverse hsplit
    rw [List.reverse_append, List.reverse_reverse] at hreverse
    show _ = (String.ofList (text.toList.reverse.dropWhile endsLine).reverse).toList ++ _
    rw [String.toList_ofList]
    exact hreverse.symm
  · intro c hc
    exact List.mem_takeWhile_imp (List.mem_reverse.1 hc)

/-! ## Numbers -/

theorem trim_padded {before text after : String} (hbefore : ∀ c ∈ before.toList, isWhitespace c)
    (hafter : ∀ c ∈ after.toList, isWhitespace c)
    (htext : ∀ c ∈ text.toList, isWhitespace c = false) (hne : text.toList ≠ []) :
    trim (before ++ text ++ after) = text := by
  have hstart : (before ++ text ++ after).toList.dropWhile isWhitespace =
      text.toList ++ after.toList := by
    rw [String.toList_append, String.toList_append, List.append_assoc,
      List.dropWhile_append_of_pos hbefore]
    obtain ⟨c, chars, hchars⟩ := List.exists_cons_of_ne_nil hne
    rw [hchars, List.cons_append, List.dropWhile_cons_of_neg]
    simp [htext c (by simp [hchars])]
  have hend : (text.toList ++ after.toList).reverse.dropWhile isWhitespace =
      text.toList.reverse := by
    rw [List.reverse_append,
      List.dropWhile_append_of_pos fun c hc => hafter c (List.mem_reverse.1 hc)]
    obtain ⟨c, chars, hchars⟩ := List.exists_cons_of_ne_nil (List.reverse_ne_nil_iff.2 hne)
    rw [hchars, List.dropWhile_cons_of_neg]
    simp [htext c (List.mem_reverse.1 (by simp [hchars]))]
  unfold trim
  rw [hstart, hend, List.reverse_reverse, String.ofList_toList]

theorem isDigit_of_mem_repr {n : ℕ} {c : Char} (h : c ∈ n.repr.toList) : c.isDigit = true := by
  rw [Nat.repr, String.toList_ofList] at h
  exact Nat.isDigit_of_mem_toDigits (by omega) le_rfl h

/-- A digit is a visible character. -/
theorem isWhitespace_of_isDigit {c : Char} (h : c.isDigit = true) : isWhitespace c = false := by
  have hrange : 48 ≤ c.toNat ∧ c.toNat ≤ 57 := by
    simpa [Char.isDigit, UInt32.le_iff_toNat_le] using h
  unfold isWhitespace
  simp only [Bool.or_eq_false_iff, decide_eq_false_iff_not, beq_eq_false_iff_ne]
  omega

/-- **A length is read back**, whatever blanks stand around it. -/
theorem parseUsize_value (h : LengthHeader) {n : ℕ} (hn : n < 2 ^ 64) :
    parseUsize (trim (h.value n)) = some n := by
  have hblank : ∀ c, c = ' ' ∨ c = '\t' → isWhitespace c = true := by
    rintro c (rfl | rfl) <;> decide
  have hne : n.repr.toList ≠ [] := by
    rw [Nat.repr, String.toList_ofList]
    exact Nat.toDigits_ne_nil
  have htrim : trim (h.value n) = n.repr :=
    trim_padded (fun c hc => hblank c (h.blank_before c hc))
      (fun c hc => hblank c (h.blank_after c hc))
      (fun c hc => isWhitespace_of_isDigit (isDigit_of_mem_repr hc)) hne
  have hunsigned : unsigned n.repr.toList = n.repr.toList := by
    unfold unsigned
    split
    · next digits hdigits =>
      have hplus : '+' ∈ n.repr.toList := by simp [hdigits]
      exact absurd (isDigit_of_mem_repr hplus) (by decide)
    · rfl
  have hvalue : Nat.ofDigitChars 10 n.repr.toList 0 = n := by
    rw [Nat.repr, String.toList_ofList]
    exact Nat.ofDigitChars_ten_toDigits
  have hdigits : n.repr.toList.all Char.isDigit = true :=
    List.all_eq_true.2 fun c hc => isDigit_of_mem_repr hc
  unfold parseUsize
  simp only [htrim, hunsigned, hvalue]
  rw [if_pos ⟨hne, hdigits, hn⟩]

/-! ## Names -/

/-- A character without another case stands in the text in lower case. -/
theorem mem_toAsciiLowercase {text : String} {c : Char} (h : c ∈ text.toList)
    (hcase : ¬ ('A' ≤ c ∧ c ≤ 'Z')) : c ∈ (toAsciiLowercase text).toList := by
  rw [toAsciiLowercase, String.toList_ofList, List.mem_map]
  exact ⟨c, h, if_neg hcase⟩

/-- A name of the length's header holds no character of another kind. -/
theorem LengthHeader.not_mem_name (h : LengthHeader) {c : Char}
    (hc : c ∉ (toAsciiLowercase "Content-Length").toList) (hcase : ¬ ('A' ≤ c ∧ c ≤ 'Z')) :
    c ∉ h.name.toList := by
  intro hmem
  have hnamed : toAsciiLowercase h.name = toAsciiLowercase "Content-Length" := by
    simpa [eqIgnoreAsciiCase] using h.named
  exact hc (hnamed ▸ mem_toAsciiLowercase hmem hcase)

theorem splitOnce_append {separator : Char} {name value : String}
    (h : separator ∉ name.toList) :
    splitOnce separator (name ++ String.singleton separator ++ value) = some (name, value) := by
  have hname : ∀ c ∈ name.toList, (c != separator) = true :=
    fun c hc => bne_iff_ne.2 fun heq => h (heq ▸ hc)
  have hchars : (name ++ String.singleton separator ++ value).toList =
      name.toList ++ separator :: value.toList := by simp
  unfold splitOnce
  rw [hchars, List.dropWhile_append_of_pos hname, List.takeWhile_append_of_pos hname]
  simp

/-- What splits the start of a text splits the text, under the same
name. -/
theorem splitOnce_of_prefix {separator : Char} {text start name value : String}
    {rest : List Char} (htext : text.toList = start.toList ++ rest)
    (h : splitOnce separator start = some (name, value)) :
    ∃ value', splitOnce separator text = some (name, value') := by
  unfold splitOnce at h ⊢
  rcases hdrop : start.toList.dropWhile (· != separator) with _ | ⟨c, chars⟩
  · rw [hdrop] at h
    exact nomatch h
  · rw [hdrop] at h
    obtain ⟨rfl, -⟩ : String.ofList (start.toList.takeWhile (· != separator)) = name ∧ _ := by
      simpa using h
    have hstop : ¬ (start.toList.takeWhile (· != separator)).length = start.toList.length := by
      intro hlength
      have hsplit := congrArg List.length
        (List.takeWhile_append_dropWhile (p := (· != separator)) (l := start.toList))
      rw [List.length_append, hdrop, hlength] at hsplit
      simp at hsplit
    refine ⟨String.ofList (chars ++ rest), ?_⟩
    rw [htext, List.dropWhile_append, List.takeWhile_append, hdrop, if_neg hstop]
    simp

/-! ## One line of each kind -/

/-- **A header of another name changes nothing.** -/
theorem turn_other (h : Header) (contentLength : Option ℕ) :
    turn contentLength (h.text ++ h.ending.text) = .ok (.header contentLength) := by
  obtain ⟨ends, hsplit, hends⟩ := exists_trimLineEnd h.text
  obtain ⟨c, hc, hvisible⟩ := h.visible
  -- the character that shows is not among those cut off
  have hkept : c ∈ (trimLineEnd h.text).toList := by
    rcases List.mem_append.1 (hsplit ▸ hc) with hmem | hmem
    · exact hmem
    · have hnewline : c = '\n' := by simpa [endsLine, hvisible] using hends c hmem
      exact absurd (hnewline ▸ hc) h.oneLine
  obtain ⟨d, chars, hchars⟩ := List.exists_cons_of_ne_nil (List.ne_nil_of_mem hkept)
  have hempty : trimLineEnd h.text ≠ "" := by
    intro heq
    simp [heq] at hkept
  have hbrace : (trimLineEnd h.text).toList.head? ≠ some '{' := by
    have hhead := h.no_brace
    rw [hsplit, hchars] at hhead
    rw [hchars]
    exact hhead
  unfold turn
  simp only [trimLineEnd_append endsLine_of_mem_ending, if_neg hempty, if_neg hbrace]
  split
  · next name value hname =>
    obtain ⟨value', hvalue⟩ := splitOnce_of_prefix hsplit hname
    rw [if_neg (by simp [h.other name value' hvalue])]
    rfl
  · rfl

theorem LengthHeader.oneLine (h : LengthHeader) (n : ℕ) : OneLine (h.text n) := by
  have hblank : ∀ {text : String}, (∀ c ∈ text.toList, c = ' ' ∨ c = '\t') → OneLine text :=
    fun hall hmem => absurd (hall _ hmem) (by decide)
  have hname : OneLine h.name := h.not_mem_name (by decide) (by decide)
  exact oneLine_append (oneLine_append hname (by decide))
    (oneLine_append (oneLine_append (hblank h.blank_before) (oneLine_natRepr n))
      (hblank h.blank_after))

/-- The header ends in its number or in a blank. -/
theorem LengthHeader.last (h : LengthHeader) (n : ℕ) :
    ∀ c ∈ (h.text n).toList.getLast?, endsLine c = false := by
  intro c hc
  have hsplit : (h.text n).toList =
      (h.name ++ ":" ++ h.before).toList ++ (n.repr.toList ++ h.after.toList) := by
    simp [LengthHeader.text, LengthHeader.value]
  have hne : n.repr.toList ++ h.after.toList ≠ [] := by
    have hdigits : n.repr.toList ≠ [] := by
      rw [Nat.repr, String.toList_ofList]
      exact Nat.toDigits_ne_nil
    exact List.append_ne_nil_of_left_ne_nil hdigits _
  rw [hsplit, List.getLast?_append_of_ne_nil _ hne] at hc
  rcases List.mem_append.1 (List.mem_of_getLast? hc) with hmem | hmem
  · have hdigit := isDigit_of_mem_repr hmem
    have hr : c ≠ '\r' := fun heq => absurd (heq ▸ hdigit) (by decide)
    have hn : c ≠ '\n' := fun heq => absurd (heq ▸ hdigit) (by decide)
    simp [endsLine, hr, hn]
  · rcases h.blank_after c hmem with rfl | rfl <;> decide

theorem LengthHeader.no_brace (h : LengthHeader) (n : ℕ) :
    (h.text n).toList.head? ≠ some '{' := by
  have hname : '{' ∉ h.name.toList := h.not_mem_name (by decide) (by decide)
  have hchars : (h.text n).toList = h.name.toList ++ ':' :: (h.value n).toList := by
    simp [LengthHeader.text]
  rw [hchars]
  intro hhead
  rcases hcases : h.name.toList with _ | ⟨c, chars⟩
  · rw [hcases] at hhead
    exact absurd hhead (by simp)
  · rw [hcases] at hhead
    have hc : c = '{' := by simpa using hhead
    exact hname (by simp [hcases, hc])

/-- **The length's header sets the length.** -/
theorem turn_length (h : LengthHeader) {n : ℕ} (hn : n ≤ maxMcpMessageBytes)
    (contentLength : Option ℕ) :
    turn contentLength (h.text n ++ h.ending.text) = .ok (.header (some n)) := by
  have htrim : trimLineEnd (h.text n ++ h.ending.text) = h.text n := by
    rw [trimLineEnd_append endsLine_of_mem_ending, trimLineEnd_self (h.last n)]
  have hempty : h.text n ≠ "" := by
    intro heq
    have hchars := congrArg String.toList heq
    simp [LengthHeader.text] at hchars
  have hsplit : splitOnce ':' (h.text n) = some (h.name, h.value n) :=
    splitOnce_append (h.not_mem_name (by decide) (by decide))
  have hparse : parseUsize (trim (h.value n)) = some n :=
    parseUsize_value h (lt_of_le_of_lt hn (by decide))
  unfold turn
  simp only [htrim, if_neg hempty, if_neg (h.no_brace n), hsplit, if_pos h.named, hparse]
  refine bind_eq_ok.2 ⟨n, rfl, bind_eq_ok.2 ⟨(), bailIf_eq_ok.2 ?_, rfl⟩⟩
  omega

theorem turn_over (ending : Ending) (contentLength : Option ℕ) :
    turn contentLength ("" ++ ending.text) = .ok .over := by
  unfold turn
  rw [trimLineEnd_append endsLine_of_mem_ending]
  rfl

theorem turn_message {text : String} (ending : Ending) (contentLength : Option ℕ)
    (hline : OneLine text) (hbrace : text.toList.head? = some '{')
    (hlast : text.toList.getLast? ≠ some '\r')
    (hfits : (utf8 text).length ≤ maxMcpMessageBytes) :
    turn contentLength (text ++ ending.text) = .ok (.message (utf8 text)) := by
  have hends : ∀ c ∈ text.toList.getLast?, endsLine c = false := by
    intro c hc
    have hr : c ≠ '\r' := fun heq => hlast (heq ▸ hc)
    have hn : c ≠ '\n' := fun heq => hline (heq ▸ List.mem_of_getLast? hc)
    simp [endsLine, hr, hn]
  have htrim : trimLineEnd (text ++ ending.text) = text := by
    rw [trimLineEnd_append endsLine_of_mem_ending, trimLineEnd_self hends]
  have hempty : text ≠ "" := by
    rintro rfl
    exact absurd hbrace (by decide)
  unfold turn
  simp only [htrim, if_neg hempty, if_pos hbrace]
  refine bind_eq_ok.2 ⟨(), bailIf_eq_ok.2 ?_, rfl⟩
  omega

/-! ## Whole frames -/

/-- Headers of other names are passed over. -/
theorem readHeaders_headers (headers : List Header) (contentLength : Option ℕ) (stream : Bytes) :
    readHeaders contentLength (headers.flatMap Header.bytes ++ stream) =
      readHeaders contentLength stream := by
  induction headers with
  | nil => rfl
  | cons h headers ih =>
    rw [List.flatMap_cons, List.append_assoc, Header.bytes,
      readHeaders_header h.oneLine (turn_other h contentLength), ih]

theorem readBody_append {body : Bytes} (stream : Bytes) :
    readBody (some body.length) (body ++ stream) = .ok (some body, stream) := by
  unfold readBody
  refine bind_eq_ok.2 ⟨body.length, rfl, bind_eq_ok.2 ⟨(), bailIf_eq_ok.2 ?_, ?_⟩⟩
  · rw [List.length_append]
    omega
  · rw [List.take_left, List.drop_left]
    rfl

/-- **One frame is read**, and the stream stands behind it. -/
theorem readMcpMessage_frame (frame : Frame) (stream : Bytes) :
    readMcpMessage (frame.bytes ++ stream) = .ok (some frame.body, stream) := by
  cases frame with
  | headed before length after ending body fits =>
    show readHeaders none (_ ++ _) = .ok (some body, stream)
    simp only [Frame.bytes, List.append_assoc]
    -- the headers of other names leave the length alone, before it is set and after
    rw [readHeaders_headers, LengthHeader.bytes,
      readHeaders_header (length.oneLine _) (turn_length length fits none), readHeaders_headers,
      readHeaders_over (by decide) (turn_over ending _), readBody_append]
  | line text ending oneLine brace last fits =>
    exact readHeaders_message oneLine (turn_message ending none oneLine brace last fits) stream

/-- **Every mixture of frames is read back**, body by body, and then the
stream is over. -/
theorem reads_frames (frames : List Frame) :
    Reads (frames.flatMap Frame.bytes) (frames.map Frame.body) := by
  induction frames with
  | nil =>
    show readHeaders none [] = .ok (none, [])
    rw [readHeaders, dif_pos rfl]
    rfl
  | cons frame frames ih =>
    exact ⟨frames.flatMap Frame.bytes, readMcpMessage_frame frame _, ih⟩

/-- The header `write_response` writes. -/
def responseHeader : LengthHeader where
  name := "Content-Length"
  before := " "
  after := ""
  ending := .crlf
  named := by decide
  blank_before := by simp
  blank_after := by simp

/-- **What is written is a frame.** -/
theorem writeResponse_frame {Response : Type} {toVec : Response → Except Error Bytes}
    {response : Response} {body : Bytes} (hbody : toVec response = .ok body)
    (hfits : body.length ≤ maxMcpMessageBytes) :
    writeResponse toVec response =
      .ok (Frame.headed [] responseHeader [] .crlf body hfits).bytes := by
  unfold writeResponse
  refine bind_eq_ok.2 ⟨body, hbody, ?_⟩
  have htext : s!"Content-Length: {body.length}\r\n\r\n" =
      (responseHeader.text body.length ++ "\r\n") ++ ("" ++ "\r\n") := by
    rw [← String.toList_inj]
    simp [LengthHeader.text, LengthHeader.value, responseHeader, toString]
  rw [htext, utf8_append]
  simp [Frame.bytes, LengthHeader.bytes, lineOf, Ending.text, responseHeader]

/-- **MCP framing round trip.** The frames of a stream are read back as
their bodies in order and then as `None`, whatever the mixture; and a
response that fits is written as a frame around its body. -/
theorem framing_round_trip :
    (∀ frames : List Frame, Reads (frames.flatMap Frame.bytes) (frames.map Frame.body)) ∧
      ∀ (Response : Type) (toVec : Response → Except Error Bytes) (response : Response)
        (body : Bytes), toVec response = .ok body → body.length ≤ maxMcpMessageBytes →
        ∃ frame : Frame, writeResponse toVec response = .ok frame.bytes ∧ frame.body = body :=
  ⟨reads_frames, fun _ _ _ _ hbody hfits => ⟨_, writeResponse_frame hbody hfits, rfl⟩⟩

end Mcp

end Embernet
