import MethodSearch.Json.Document
import MethodSearch.Json.Quoted

/-!
# Reading JSON

A text is read from left to right with the open containers on a stack, so that nesting has no limit here. Where
the text stops being JSON the open containers are left as they are.
-/

namespace MethodSearch.Json

inductive Frame where
  /-- The items read, last one first. -/
  | items (done : List Document)
  /-- The members read, last one first, and the key whose value comes next. -/
  | members (done : List (Key × Document)) (key : Key)

namespace Frame

/-- The container with one more element and nothing behind it. -/
def add (d : Document) (stop : Option Fault) : Frame → Document
  | .items done => .array (d :: done).reverse stop
  | .members done key => .object ((key, d) :: done).reverse stop

/-- All open containers around a document at which the text stops. -/
def abandon (skim : Fault) (d : Document) (stack : List Frame) : Document :=
  stack.foldl (fun d frame => frame.add d (some skim)) d

end Frame

namespace Reader

def isBlank (c : Char) : Bool :=
  c == ' ' || c == '\n' || c == '\t' || c == '\r'

def skipBlanks (s : List Char) : List Char :=
  s.dropWhile isBlank

/-- What follows a fixed word. -/
def word : List Char → List Char → Except Fault (List Char)
  | [], s => .ok s
  | _ :: _, [] => .error .truncated
  | w :: ws, c :: s => if w = c then word ws s else .error .malformed

/-- The document of a fixed word, and what follows it. -/
def literal (ws : List Char) (d : Document) (s : List Char) : Document × List Char :=
  match word ws s with
  | .ok rest => (d, rest)
  | .error f => (.broken ⟨.malformed, f, f⟩, s)

/-- A number, which a reader that only skims it calls malformed wherever it stops. -/
def numeral (s : List Char) : Document × List Char :=
  match Numeral.read s with
  | .ok (n, rest) => (.number n, rest)
  | .error f => (.broken ⟨.malformed, f, .malformed⟩, s)

def quoted (s : List Char) : Document × List Char :=
  match Quoted.read .start s with
  | .closed read rest => (.string read, rest)
  | .unclosed read skim => (.broken ⟨read, read, skim⟩, s)

/-- Reads a value that is no container. -/
def leaf (s : List Char) : Document × List Char :=
  match s with
  | [] => (.broken (.always .truncated), [])
  | c :: rest =>
      if c = 'n' then literal ['u', 'l', 'l'] .null rest
      else if c = 't' then literal ['r', 'u', 'e'] (.bool true) rest
      else if c = 'f' then literal ['a', 'l', 's', 'e'] (.bool false) rest
      else if c = '"' then quoted rest
      else if c = '-' ∨ ('0' ≤ c ∧ c ≤ '9') then numeral s
      else (.broken (.always .malformed), rest)

/-! ## Containers -/

/-- Where the reader stands after a value. -/
inductive Turn where
  /-- Another value is due. -/
  | next (stack : List Frame) (rest : List Char)
  /-- The document is complete, or cannot be. -/
  | done (d : Document) (rest : List Char)

/-- The text stops at a value. -/
def stopAt (b : Break) (stack : List Frame) : Turn :=
  .done (Frame.abandon b.skimmed (.broken b) stack) []

def member (found : List (Key × Document)) (stack : List Frame) (s : List Char) : Turn :=
  match skipBlanks s with
  | [] => stopAt (.always .truncated) (.members found (.text (.error .truncated)) :: stack)
  | c :: rest =>
      if c = '"' then
        match Quoted.read .start rest with
        | .closed read after =>
            let inside := .members found (.text read) :: stack
            match skipBlanks after with
            | [] => stopAt (.always .truncated) inside
            | d :: rest => if d = ':' then .next inside rest else stopAt (.always .malformed) inside
        | .unclosed read skim => stopAt ⟨read, read, skim⟩ (.members found (.text (.error read)) :: stack)
      else stopAt (.always .malformed) (.members found .other :: stack)

/-- Gives a complete value to the innermost container and closes as many containers as the text does. -/
def settle (d : Document) : List Frame → List Char → Turn
  | [], s => .done d s
  | .items found :: stack, s =>
      match skipBlanks s with
      | [] => .done (Frame.abandon .truncated (.array (d :: found).reverse (some .truncated)) stack) []
      | c :: rest =>
          if c = ',' then .next (.items (d :: found) :: stack) rest
          else if c = ']' then settle (.array (d :: found).reverse none) stack rest
          else .done (Frame.abandon .malformed (.array (d :: found).reverse (some .malformed)) stack) []
  | .members found key :: stack, s =>
      match skipBlanks s with
      | [] => .done (Frame.abandon .truncated (.object ((key, d) :: found).reverse (some .truncated)) stack) []
      | c :: rest =>
          if c = ',' then member ((key, d) :: found) stack rest
          else if c = '}' then settle (.object ((key, d) :: found).reverse none) stack rest
          else .done (Frame.abandon .malformed (.object ((key, d) :: found).reverse (some .malformed)) stack) []

/-- The first step of a value: a container is opened, or a leaf is read. -/
def enter (stack : List Frame) (s : List Char) : Turn :=
  match skipBlanks s with
  | [] => stopAt (.always .truncated) stack
  | c :: rest =>
      if c = '[' then
        match skipBlanks rest with
        | [] => .done (Frame.abandon .truncated (.array [] (some .truncated)) stack) []
        | d :: after => if d = ']' then settle (.array [] none) stack after else .next (.items [] :: stack) rest
      else if c = '{' then
        match skipBlanks rest with
        | d :: after => if d = '}' then settle (.object [] none) stack after else member [] stack rest
        | [] => member [] stack rest
      else
        match leaf (c :: rest) with
        | (.broken b, _) => stopAt b stack
        | (d, after) => settle d stack after

/-! ## What is left -/

theorem skipBlanks_length (s : List Char) : (skipBlanks s).length ≤ s.length :=
  (List.dropWhile_suffix isBlank).length_le

theorem word_length {ws s rest : List Char} (h : word ws s = .ok rest) : rest.length ≤ s.length := by
  induction ws generalizing s with
  | nil => simp_all [word]
  | cons w ws ih =>
      cases s with
      | nil => simp [word] at h
      | cons c s =>
          simp only [word] at h
          split at h
          · have := ih h; simp only [List.length_cons]; omega
          · simp at h

theorem literal_length (ws : List Char) (d : Document) (s : List Char) :
    (literal ws d s).2.length ≤ s.length := by
  unfold literal
  split
  · next h => exact word_length h
  · simp

theorem numeral_length (s : List Char) : (numeral s).2.length ≤ s.length := by
  unfold numeral
  split
  · next h => exact Numeral.read_length h
  · simp

theorem quoted_length (s : List Char) : (quoted s).2.length ≤ s.length := by
  unfold quoted
  split
  · next h => exact Nat.le_of_lt (Quoted.read_length h)
  · simp

theorem leaf_length (s : List Char) : (leaf s).2.length ≤ s.length := by
  cases s with
  | nil => simp [leaf]
  | cons c rest =>
      have h₁ := numeral_length (c :: rest)
      have h₂ := quoted_length rest
      have h₃ := fun ws d => literal_length ws d rest
      simp only [leaf]
      repeat' split
      all_goals first
        | exact Nat.le_succ_of_le (h₃ _ _)
        | exact Nat.le_succ_of_le h₂
        | exact h₁
        | simp

theorem member_length {found : List (Key × Document)} {stack stack' : List Frame} {s rest : List Char}
    (h : member found stack s = .next stack' rest) : rest.length < s.length := by
  have h₀ := skipBlanks_length s
  unfold member stopAt at h
  split at h
  · simp at h
  · next c tail hs =>
      rw [hs] at h₀
      split at h
      · split at h
        · next read after hq =>
            have h₁ := Quoted.read_length hq
            have h₂ := skipBlanks_length after
            split at h
            · simp at h
            · next d tail' ha =>
                rw [ha] at h₂
                split at h
                · simp only [Turn.next.injEq] at h
                  rw [← h.2]
                  simp only [List.length_cons] at h₀ h₂; omega
                · simp at h
        · simp at h
      · simp at h

theorem settle_length {d : Document} {stack stack' : List Frame} {s rest : List Char}
    (h : settle d stack s = .next stack' rest) : rest.length < s.length := by
  fun_induction settle d stack s with
  | case3 _ _ _ s _ hs =>
      have h₀ := skipBlanks_length s
      rw [hs] at h₀
      simp only [Turn.next.injEq] at h
      rw [← h.2]
      simp only [List.length_cons] at h₀; omega
  | case4 _ _ _ s _ hs _ ih =>
      have h₀ := skipBlanks_length s
      have := ih h
      rw [hs] at h₀
      simp only [List.length_cons] at h₀; omega
  | case7 _ _ _ _ s _ hs =>
      have h₀ := skipBlanks_length s
      have := member_length h
      rw [hs] at h₀
      simp only [List.length_cons] at h₀; omega
  | case8 _ _ _ _ s _ hs _ ih =>
      have h₀ := skipBlanks_length s
      have := ih h
      rw [hs] at h₀
      simp only [List.length_cons] at h₀; omega
  | _ => simp at h

theorem enter_length {stack stack' : List Frame} {s rest : List Char}
    (h : enter stack s = .next stack' rest) : rest.length < s.length := by
  have h₀ := skipBlanks_length s
  unfold enter stopAt at h
  split at h
  · simp at h
  · next c tail hs =>
      rw [hs] at h₀
      simp only [List.length_cons] at h₀
      have h₁ := skipBlanks_length tail
      split at h
      · split at h
        · simp at h
        · next d after ha =>
            rw [ha] at h₁
            simp only [List.length_cons] at h₁
            split at h
            · have := settle_length h; omega
            · simp only [Turn.next.injEq] at h
              rw [← h.2]; omega
      · split at h
        · split at h
          · next d after ha =>
              rw [ha] at h₁
              simp only [List.length_cons] at h₁
              split at h
              · have := settle_length h; omega
              · have := member_length h; omega
          · have := member_length h; omega
        · have h₂ := leaf_length (c :: tail)
          split at h
          · simp at h
          · next d after _ hl =>
              rw [hl] at h₂
              have := settle_length h
              simp only [List.length_cons] at h₂; omega

/-- Reads values until the outermost one is complete or the text stops. -/
def run (stack : List Frame) (s : List Char) : Document × List Char :=
  match h : enter stack s with
  | .done d rest => (d, rest)
  | .next stack' rest =>
      have := enter_length h
      run stack' rest
termination_by s.length

end Reader

/-- A text as a document, and whether nothing but blanks follows it. -/
def readText (text : String) : Document × Bool :=
  let (d, rest) := Reader.run [] text.toList
  (d, (Reader.skipBlanks rest).isEmpty)

/-- Reads a text as one type. What follows the value is looked at last. -/
def decode {α : Type} (read : Document → Except Fault α) (text : String) : Except Fault α := do
  let (d, ended) := readText text
  let a ← read d
  if ended then .ok a else .error .malformed

end MethodSearch.Json
