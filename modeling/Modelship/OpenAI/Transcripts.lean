import Modelship.Foundation.Lines
import Modelship.Foundation.Rounding

namespace Modelship.Transcripts
open Foundation

structure Segment where
  start : Rat
  stop : Rat
  text : String

def milliseconds (seconds : Rat) : Nat := (max 0 (roundHalfEven (seconds * 1000))).toNat

def cueLines (text : String) : List (List Char) := ((splitlines [] text.toList).map stripChars).filter (· ≠ [])

section
variable (vtt : Bool)

def separator : Char := if vtt then '.' else ','

-- `_timestamp`
def timestamp (seconds : Rat) : List Char :=
  let total := milliseconds seconds
  let hours := total / 3600000
  let minutes := total % 3600000 / 60000
  let secs := total % 3600000 % 60000 / 1000
  let ms := total % 3600000 % 60000 % 1000
  padded 2 hours ++ ':' :: padded 2 minutes ++ ':' :: padded 2 secs ++ separator vtt :: padded 3 ms

-- `_cue_body`
def cueBody (text : String) : List Char := join '\n' (cueLines text)

def times (segment : Segment) : List Char := timestamp vtt segment.start ++ " --> ".toList ++ timestamp vtt segment.stop

def cue (index : Nat) (segment : Segment) : List Char :=
  let header := if vtt then times vtt segment else padded 0 index ++ '\n' :: times vtt segment
  header ++ '\n' :: cueBody segment.text

def cues (index : Nat) : List Segment → List (List Char)
  | [] => []
  | segment :: rest => cue vtt index segment :: cues (index + 1) rest

def renderTranscript (segments : List Segment) : String :=
  let body := "\n\n".toList.intercalate (cues vtt 1 segments)
  String.ofList (if vtt then "WEBVTT\n\n".toList ++ body ++ ['\n'] else body ++ ['\n'])

-- What a player shows: the times in milliseconds and the lines between them.
structure Cue where
  start : Nat
  stop : Nat
  lines : List (List Char)
deriving DecidableEq

def readTimestamp (text : List Char) : Option Nat := match split ':' text with
  | [hours,minutes,rest] => match split (separator vtt) rest with
    | [secs,ms] => do
      let hours ← numeral 10 hours
      let minutes ← numeral 10 minutes
      let secs ← numeral 10 secs
      let ms ← numeral 10 ms
      return ((hours * 60 + minutes) * 60 + secs) * 1000 + ms
    | _ => none
  | _ => none

def readTimes (line : List Char) (lines : List (List Char)) : Option Cue := match split ' ' line with
  | [start,['-','-','>'],stop] => do
    let start ← readTimestamp vtt start
    let stop ← readTimestamp vtt stop
    return ⟨start,stop,lines⟩
  | _ => none

def readCue (index : Nat) (lines : List (List Char)) : Option Cue := match vtt,lines with
  | true,line :: rest => readTimes true line rest
  | false,number :: line :: rest => if numeral 10 number = some index then readTimes false line rest else none
  | _,_ => none

def readCues (index : Nat) : List (List (List Char)) → Option (List Cue)
  | [] => some []
  | lines :: rest => do
    let first ← readCue vtt index lines
    let others ← readCues (index + 1) rest
    return first :: others

def readTranscript (text : String) : Option (List Cue) := match vtt,paragraphs text.toList with
  | true,heading :: rest => if heading = ["WEBVTT".toList] then readCues true 1 rest else none
  | true,[] => none
  | false,rest => readCues false 1 rest

def shown (segment : Segment) : Cue := ⟨milliseconds segment.start,milliseconds segment.stop,cueLines segment.text⟩

theorem stripChars_mem {c : Char} {text : List Char} (member : c ∈ stripChars text) : c ∈ text := by
  have inner := (List.dropWhile_suffix isSpace).subset (List.mem_reverse.mp member)
  exact (List.dropWhile_suffix isSpace).subset (List.mem_reverse.mp inner)

theorem cueLines_printable (text : String) : Printable (cueLines text) := by
  intro line member
  obtain ⟨inside,full⟩ := List.mem_filter.mp member
  obtain ⟨whole,among,rfl⟩ := List.mem_map.mp inside
  refine ⟨of_decide_eq_true full,fun broken => ?_⟩
  exact splitlines_apart List.not_mem_nil text.toList whole among (stripChars_mem broken)

-- A time holds digits, colons and the separator.
theorem timestamp_apart {c : Char} (digit : c.isDigit = false) (colon : c ≠ ':') (mark : c ≠ separator vtt) (seconds : Rat) :
    c ∉ timestamp vtt seconds := by
  simp [timestamp,padded_apart digit,colon,mark]

theorem readTimestamp_timestamp (seconds : Rat) :
    readTimestamp vtt (timestamp vtt seconds) = some (milliseconds seconds) := by
  have colon : ∀ width n, ':' ∉ padded width n := fun width n => padded_apart rfl
  have mark : ∀ width n, separator vtt ∉ padded width n := by
    intro width n
    cases vtt with
    | true => exact padded_apart rfl
    | false => exact padded_apart rfl
  have other : ':' ≠ separator vtt := by
    cases vtt with
    | true => decide
    | false => decide
  simp only [timestamp,List.append_assoc,List.cons_append,readTimestamp]
  rw [split_first (colon _ _),split_first (colon _ _),split_whole (by simp [colon,other])]
  simp only []
  rw [split_first (mark _ _),split_whole (mark _ _)]
  simp only [numeral_padded,Option.bind_eq_bind,Option.bind_some,Option.pure_def,Option.some.injEq]
  omega

theorem readTimes_times (segment : Segment) (lines : List (List Char)) :
    readTimes vtt (times vtt segment) lines = some ⟨milliseconds segment.start,milliseconds segment.stop,lines⟩ := by
  have blank : ∀ seconds, ' ' ∉ timestamp vtt seconds := by
    intro seconds
    cases vtt with
    | true => exact timestamp_apart true rfl (by decide) (by decide) seconds
    | false => exact timestamp_apart false rfl (by decide) (by decide) seconds
  have arrow : times vtt segment =
      timestamp vtt segment.start ++ ' ' :: (['-','-','>'] ++ ' ' :: timestamp vtt segment.stop) := by
    rw [times,List.append_assoc]
    rfl
  rw [readTimes,arrow,split_first (blank _),split_first (by decide),split_whole (blank _)]
  simp [readTimestamp_timestamp]

theorem times_printable (segment : Segment) : times vtt segment ≠ [] ∧ '\n' ∉ times vtt segment := by
  have newline : ∀ seconds, '\n' ∉ timestamp vtt seconds := by
    intro seconds
    cases vtt with
    | true => exact timestamp_apart true rfl (by decide) (by decide) seconds
    | false => exact timestamp_apart false rfl (by decide) (by decide) seconds
  constructor
  · simp [times]
  · simp [times,newline]

-- The lines above a cue's text.
def heading (index : Nat) (segment : Segment) : List (List Char) :=
  if vtt then [times vtt segment] else [padded 0 index,times vtt segment]

theorem cue_block (index : Nat) (segment : Segment) :
    cue vtt index segment = block (heading vtt index segment,cueLines segment.text) := by
  cases vtt with
  | true => rfl
  | false => simp [cue,heading,block,join,cueBody]

theorem heading_good (index : Nat) (segment : Segment) :
    heading vtt index segment ≠ [] ∧ Printable (heading vtt index segment) := by
  have line := times_printable vtt segment
  have number : padded 0 index ≠ [] ∧ '\n' ∉ padded 0 index := ⟨padded_ne_nil 0 index,padded_apart rfl⟩
  cases vtt with
  | true => exact ⟨by simp [heading],by simpa [Printable,heading] using line⟩
  | false => exact ⟨by simp [heading],by simpa [Printable,heading] using ⟨number,line⟩⟩

theorem readCue_heading (index : Nat) (segment : Segment) :
    readCue vtt index (heading vtt index segment ++ cueLines segment.text) = some (shown segment) := by
  cases vtt with
  | true => exact readTimes_times true segment (cueLines segment.text)
  | false =>
      have read := readTimes_times false segment (cueLines segment.text)
      simp [heading,readCue,numeral_padded,read,shown]

-- The cues from a number on, each with its heading and its text.
def blocks (index : Nat) : List Segment → List (List (List Char) × List (List Char))
  | [] => []
  | segment :: rest => (heading vtt index segment,cueLines segment.text) :: blocks (index + 1) rest

theorem cues_blocks (index : Nat) (segments : List Segment) : cues vtt index segments = (blocks vtt index segments).map block := by
  induction segments generalizing index with
  | nil => rfl
  | cons segment rest ih => rw [cues,blocks,List.map_cons,cue_block,ih]

theorem blocks_good (index : Nat) (segments : List Segment) :
    ∀ lines ∈ blocks vtt index segments, lines.1 ≠ [] ∧ Printable lines.1 ∧ Printable lines.2 := by
  induction segments generalizing index with
  | nil => simp [blocks]
  | cons segment rest ih =>
      intro lines member
      rcases List.mem_cons.mp member with rfl | later
      · exact ⟨(heading_good vtt index segment).1,(heading_good vtt index segment).2,cueLines_printable segment.text⟩
      · exact ih (index + 1) lines later

theorem readCues_blocks (index : Nat) (segments : List Segment) :
    readCues vtt index ((blocks vtt index segments).map fun lines => lines.1 ++ lines.2) = some (segments.map shown) := by
  induction segments generalizing index with
  | nil => rfl
  | cons segment rest ih =>
      rw [blocks,List.map_cons,readCues,readCue_heading,ih]
      rfl

-- Nothing a segment says makes, hides or splits a cue.
theorem transcript_reads (segments : List Segment) :
    readTranscript vtt (renderTranscript vtt segments) = some (segments.map shown) := by
  have read := readCues_blocks vtt 1 segments
  have apart := paragraphs_blocks (blocks_good vtt 1 segments)
  rw [← cues_blocks] at apart
  cases vtt with
  | false =>
      have text : (renderTranscript false segments).toList = "\n\n".toList.intercalate (cues false 1 segments) ++ ['\n'] := by
        simp [renderTranscript]
      unfold readTranscript
      rw [text]
      exact (congrArg (readCues false 1) apart).trans read
  | true =>
      have titled : ∀ rest, paragraphs ("WEBVTT\n\n".toList ++ rest) = ["WEBVTT".toList] :: paragraphs rest := by
        intro rest
        have lines : split '\n' ("WEBVTT\n\n".toList ++ rest) = ["WEBVTT".toList] ++ [] :: split '\n' rest := by
          rw [show "WEBVTT\n\n".toList ++ rest = "WEBVTT".toList ++ '\n' :: '\n' :: rest from rfl,split_append]
          simp [split]
        rw [paragraphs,lines,paragraphsFrom_block (by simp)]
        rfl
      have text : (renderTranscript true segments).toList =
          "WEBVTT\n\n".toList ++ ("\n\n".toList.intercalate (cues true 1 segments) ++ ['\n']) := by
        simp [renderTranscript]
      unfold readTranscript
      rw [text,titled]
      simp only [if_true]
      exact (congrArg (readCues true 1) apart).trans read

end
end Modelship.Transcripts
