import Embernet.Model.Log
/-!
# Scanning — appended records are found where they were written

The scan of a log accepts only closed files of envelopes that verify, and
a record appended to such a file is found behind the others, in the bytes
it was written to.
-/

set_option autoImplicit false

namespace Embernet

open Ndjson Primitives

variable [Primitives] {log : Bytes} {scanned : List ScannedEnvelope} {env : Envelope}

/-- What the scan took a line for: nothing, or a record. -/
def lineRecord (offset : ℕ) (line : Bytes) (items : List ScannedEnvelope) : Prop :=
  line.getLast? = some 0x0a ∧
    (((chomp line).all isAsciiWhitespace = true ∧ items = []) ∨
      ((chomp line).all isAsciiWhitespace = false ∧
        ∃ env, readEnvelope (chomp line) = some env ∧ env.verify = .ok () ∧
          items = [⟨env, offset, line.length⟩]))

theorem scanLines_cons_ok {n offset : ℕ} {line : Bytes} {lines : List Bytes} :
    scanLines n offset (line :: lines) = .ok scanned ↔
      ∃ items rest, lineRecord offset line items ∧
        scanLines (n + 1) (offset + line.length) lines = .ok rest ∧ scanned = items ++ rest := by
  simp only [scanLines, lineRecord, bind_eq_ok, bailIf_eq_ok, not_not]
  by_cases hws : (chomp line).all isAsciiWhitespace = true
  · simp only [hws, if_true, true_and, Bool.true_eq_false, false_and, or_false]
    constructor
    · rintro ⟨_, hlast, hrest⟩
      exact ⟨[], scanned, ⟨hlast, rfl⟩, hrest, rfl⟩
    · rintro ⟨_, rest, ⟨hlast, rfl⟩, hrest, rfl⟩
      exact ⟨(), hlast, hrest⟩
  · simp only [hws, if_false, Bool.false_eq_true, false_and, false_or, true_and, bind_eq_ok,
      orBail_eq_ok, context_eq_ok, pure_eq_ok]
    constructor
    · rintro ⟨_, hlast, env, hread, _, hverify, rest, hrest, rfl⟩
      exact ⟨_, rest, ⟨hlast, env, hread, hverify, rfl⟩, hrest, rfl⟩
    · rintro ⟨_, rest, ⟨hlast, env, hread, hverify, rfl⟩, hrest, rfl⟩
      exact ⟨(), hlast, env, hread, (), hverify, rest, hrest, rfl⟩

theorem scanLines_append {n offset : ℕ} {xs ys : List Bytes} {as bs : List ScannedEnvelope}
    (hxs : scanLines n offset xs = .ok as)
    (hys : scanLines (n + xs.length) (offset + xs.flatten.length) ys = .ok bs) :
    scanLines n offset (xs ++ ys) = .ok (as ++ bs) := by
  induction xs generalizing n offset as with
  | nil =>
    cases hxs
    exact hys
  | cons line xs ih =>
    obtain ⟨items, rest, hline, hrest, rfl⟩ := scanLines_cons_ok.1 hxs
    have hn : n + (line :: xs).length = n + 1 + xs.length := by rw [List.length_cons]; omega
    have hoff : offset + (line :: xs).flatten.length = offset + line.length + xs.flatten.length := by
      rw [List.flatten_cons, List.length_append]; omega
    rw [hn, hoff] at hys
    exact scanLines_cons_ok.2 ⟨items, _, hline, ih hrest hys, List.append_assoc _ _ _⟩

/-- The refusal of a last line that is not closed. -/
def truncatedAt (n : ℕ) : Error :=
  [s!"corrupt log log.ndjson at line {n}: truncated record (missing newline)"]

/-- **A torn last line is refused**, whatever stands in front of it. -/
theorem scanLines_torn {n offset : ℕ} {lines : List Bytes} {piece : Bytes}
    (h : scanLines n offset lines = .ok scanned) (hpiece : piece.getLast? ≠ some 0x0a) :
    scanLines n offset (lines ++ [piece]) = .error (truncatedAt (n + lines.length)) := by
  induction lines generalizing n offset scanned with
  | nil =>
    rw [List.nil_append, scanLines, bailIf, if_pos hpiece]
    rfl
  | cons line lines ih =>
    obtain ⟨items, rest, ⟨hlast, hitems⟩, hrest, rfl⟩ := scanLines_cons_ok.1 h
    have htail := ih hrest
    rw [Nat.add_assoc, Nat.add_comm 1, ← List.length_cons (a := line)] at htail
    rw [List.cons_append, scanLines, bailIf, if_neg (not_not.2 hlast)]
    rcases hitems with ⟨hspace, -⟩ | ⟨hspace, env, hread, hverify, -⟩
    · simp only [hspace, htail]
      rfl
    · simp only [hspace, hread, orBail, pure_bind, hverify, htail]
      rfl

/-- **What the scan accepts is closed.** -/
theorem terminated_of_scan (h : scanVerifiedFile log = .ok scanned) : Terminated log := by
  suffices hlines : ∀ (lines : List Bytes) (n offset : ℕ) (items : List ScannedEnvelope),
      scanLines n offset lines = .ok items → Terminated lines.flatten by
    have := hlines _ _ _ _ h
    rwa [flatten_splitLines] at this
  intro lines
  induction lines with
  | nil => exact fun _ _ _ _ => terminated_nil
  | cons line lines ih =>
    intro n offset items hitems
    obtain ⟨_, rest, ⟨hlast, -⟩, hrest, -⟩ := scanLines_cons_ok.1 hitems
    refine terminated_append (fun b hb => ?_) (ih _ _ _ hrest)
    rw [hlast] at hb
    exact (Option.mem_some_iff.1 hb).symm

/-- Whatever it finds verifies. -/
theorem verify_of_mem_scan (h : scanVerifiedFile log = .ok scanned) :
    ∀ item ∈ scanned, item.envelope.verify = .ok () := by
  suffices hlines : ∀ (lines : List Bytes) (n offset : ℕ) (items : List ScannedEnvelope),
      scanLines n offset lines = .ok items → ∀ item ∈ items, item.envelope.verify = .ok () from
    hlines _ _ _ _ h
  intro lines
  induction lines with
  | nil =>
    intro n offset items hitems
    cases hitems
    simp
  | cons line lines ih =>
    intro n offset items hitems item hitem
    obtain ⟨found, rest, ⟨-, hfound⟩, hrest, rfl⟩ := scanLines_cons_ok.1 hitems
    rcases List.mem_append.1 hitem with hmem | hmem
    · rcases hfound with ⟨-, rfl⟩ | ⟨-, env, -, hverify, rfl⟩
      · cases hmem
      · rw [List.mem_singleton.1 hmem]
        exact hverify
    · exact ih _ _ _ hrest item hmem

theorem scanVerifiedFile_nil : scanVerifiedFile [] = .ok [] := rfl

/-- An envelope's record is one visible line. -/
theorem lineRecord_record (offset : ℕ) (h : env.verify = .ok ()) :
    lineRecord offset (envelopeCodec.record env)
      [⟨env, offset, (envelopeCodec.record env).length⟩] := by
  have hchomp := envelopeCodec.chomp_record env
  obtain ⟨body, hbody⟩ := Json.compact_obj
    [("id", .str env.id), ("channel", .str env.channel), ("from", .str env.sender),
      ("from_alias", .opt .str env.fromAlias), ("ts", timestamp env.ts), ("sig", .str env.sig),
      ("msg", env.msg.toJson)]
  refine ⟨by simp [Codec.record], Or.inr ⟨?_, env, ?_, h, rfl⟩⟩
  · rw [hchomp]
    change List.all (Envelope.toJson env).compact isAsciiWhitespace = false
    rw [Envelope.toJson, hbody]
    rfl
  · rw [hchomp]
    exact envelopeCodec.read_write env

/-- A line is scanned behind what was there. -/
theorem scan_append_line {r : Bytes} {items : List ScannedEnvelope}
    (h : scanVerifiedFile log = .ok scanned) (hr : (0x0a : UInt8) ∉ r)
    (hitems : lineRecord log.length (r ++ [0x0a]) items) :
    scanVerifiedFile (log ++ (r ++ [0x0a])) = .ok (scanned ++ items) := by
  rw [scanVerifiedFile, splitLines_append (terminated_of_scan h), splitLines_record hr]
  refine scanLines_append h (scanLines_cons_ok.2 ⟨_, [], ?_, rfl, (List.append_nil _).symm⟩)
  rwa [flatten_splitLines, Nat.zero_add]

/-- **An appended record is scanned**, behind what was there. -/
theorem scan_append (h : scanVerifiedFile log = .ok scanned) (henv : env.verify = .ok ()) :
    scanVerifiedFile (log ++ envelopeCodec.record env) =
      .ok (scanned ++ [⟨env, log.length, (envelopeCodec.record env).length⟩]) :=
  scan_append_line h (envelopeCodec.newline_not_mem env) (lineRecord_record _ henv)

end Embernet
