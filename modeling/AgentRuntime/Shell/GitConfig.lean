import AgentRuntime.Lib.Text

/-!
# `Shell.GitConfig` — the git config of a run (`agent-shell/src/git_state.rs`)

A run may leave entries in a git config file that make git start a program later. The file is read by lines, the entries
that are risky and were not there before the run are dropped, and the file is written again without their lines.
-/

namespace AgentRuntime.Shell

open Text

/-- A line of a text, or a piece of one. -/
abbrev Line : Type := List Char

/-! ## Reading a config -/

/-- One config entry: its full key, its value, and the lines it spans (from `start` up to `end_`). -/
structure ConfigEntry where
  key : Line
  value : Line
  start : ℕ
  end_ : ℕ
  /-- The key sits on its section header. -/
  inline : Bool
  /-- The line of the section header this entry belongs to. -/
  header : Option ℕ
deriving DecidableEq

/-- `str::split_once`, at the first character that `p` holds of. -/
def splitOnce (p : Char → Bool) (s : Line) : Option (Line × Line) :=
  match s.dropWhile fun c => !p c with
  | [] => none
  | _ :: rest => some (s.takeWhile fun c => !p c, rest)

/-- `str::trim_matches('"')`. -/
def trimQuotes (s : Line) : Line := (s.dropWhile fun c => c == '"').rdropWhile fun c => c == '"'

def sectionName (inner : Line) : Line :=
  match splitOnce isWhitespace inner with
  | some (name, sub) => asciiLower name ++ '.' :: trimQuotes (trim sub)
  | none =>
      match splitOnce (fun c => c == '.') inner with
      -- Old-style `[section.sub]`.
      | some (name, sub) => asciiLower name ++ '.' :: sub
      | none => asciiLower inner

/-- The characters of a value up to a comment outside quotes; the quotes go. -/
def valueChars : Bool → Line → Line
  | _, [] => []
  | quoted, c :: rest =>
      if c = '"' then valueChars (!quoted) rest
      else if (c = '#' ∨ c = ';') ∧ quoted = false then []
      else c :: valueChars quoted rest

/-- Parse a key line (`key = value`, or a bare `key`), stripping comments outside quotes. -/
def keyValue (line : Line) : Option (Line × Line) :=
  match trim line with
  | [] => none
  | first :: rest =>
      if first = '#' ∨ first = ';' then none
      else
        let (k, v) := match splitOnce (fun c => c == '=') (first :: rest) with
          | some (k, v) => (trim k, trim v)
          | none => (first :: rest, "true".toList)
        some (asciiLower k, trim (valueChars false v))

/-- How a line begins. -/
inductive Opening where
  /-- A header that is not closed. -/
  | unclosed
  /-- A section header, and what follows it on its line. -/
  | header (sec body : Line)
  | plain (body : Line)

def opening (line : Line) : Opening :=
  match strip ['['] (trim line) with
  | some rest =>
      match breakOn [']'] rest with
      | none => .unclosed
      | some (inner, close) => .header (sectionName (trim inner)) (trim (close.drop 1))
  | none => .plain (trim line)

/-- A line joined with the lines that continue it, and how many they are. -/
def continued : Line → List Line → Line × ℕ
  | joined, [] => (joined, 0)
  | joined, line :: rest =>
      if joined.getLast? = some '\\' then
        let (joined, n) := continued (joined.dropLast ++ trim line) rest
        (joined, n + 1)
      else (joined, 0)

/-- The entry on a joined line. -/
def entryAt (sec : Line) (header : Option ℕ) (start n : ℕ) (inline : Bool) (joined : Line) : Option ConfigEntry :=
  (keyValue joined).map fun (k, v) =>
    { key := sec ++ '.' :: k, value := v, start, end_ := start + 1 + n, inline, header }

/-- The entries of the lines from the `i`-th on, the next `skip` of which were joined to the line before them. -/
def parseLines (sec : Line) (header : Option ℕ) (i : ℕ) : ℕ → List Line → List ConfigEntry
  | _, [] => []
  | skip + 1, _ :: rest => parseLines sec header (i + 1) skip rest
  | 0, line :: rest =>
      match opening line with
      | .unclosed => parseLines sec header (i + 1) 0 rest
      | .header sec body =>
          let (joined, n) := continued body rest
          (entryAt sec (some i) i n true joined).toList ++ parseLines sec (some i) (i + 1) n rest
      | .plain body =>
          let (joined, n) := continued body rest
          (entryAt sec header i n false joined).toList ++ parseLines sec header (i + 1) n rest

/-- Every entry of a git config text, with its line span. -/
def parseConfig (text : Line) : List ConfigEntry := parseLines [] none 0 0 (lines text)

/-! ## What is risky -/

/-- What follows the last dot. -/
def lastPart (s : Line) : Line := s.rtakeWhile fun c => c != '.'

/-- The subsection of a key, which keeps its case. -/
def subsection (key : Line) : Line :=
  match splitOnce (fun c => c == '.') key with
  | some (_, rest) => ((rest.rdropWhile fun c => c != '.').dropLast)
  | none => []

/-- The owner's list of keys that name a program, move git elsewhere, or could drop the trailer from later commits. -/
def isRisky (key value : Line) : Bool :=
  let lower := asciiLower key
  let (first, rest) := (splitOnce (fun c => c == '.') lower).getD (lower, [])
  let last := String.ofList (lastPart rest)
  match String.ofList first with
  | "core" =>
      ["hookspath", "fsmonitor", "sshcommand", "pager", "editor", "askpass", "gitproxy", "commentchar",
        "commentstring", "alternaterefscommand", "worktree"].contains last
  | "alias" | "filter" | "credential" => true
  | "diff" => ["external", "textconv", "command"].contains last
  | "interactive" => last == "difffilter"
  | "hook" => true
  | "tar" => last == "command"
  | "submodule" => last == "update" && (value.dropWhile isWhitespace).head? == some '!'
  | "sendemail" => ["sendmailcmd", "tocmd", "cccmd", "headercmd", "smtpserver"].contains last
  | "merge" => last == "driver"
  | "include" | "includeif" => last == "path"
  | "url" =>
      ["insteadof", "pushinsteadof"].contains last && !"https://".toList.isPrefixOf (asciiLower (subsection key))
  | "protocol" => last == "allow" && asciiLower value == "always".toList
  | "gpg" => ["program", "defaultkeycommand"].contains last
  | "sequence" => last == "editor"
  | "uploadpack" => last == "packobjectshook"
  | "remote" => ["uploadpack", "receivepack"].contains last
  | "pager" => true
  | "browser" | "man" | "difftool" | "mergetool" | "guitool" => ["cmd", "path"].contains last
  | "trailer" => true
  | "commit" => last == "cleanup"
  | _ => false

/-- Key and value of an entry. -/
def ConfigEntry.pair (e : ConfigEntry) : Line × Line := (e.key, e.value)

/-- The risky entries of a text, as they are kept from before a run. -/
def riskyConfig (text : Line) : List (Line × Line) :=
  ((parseConfig text).filter fun e => isRisky e.key e.value).map ConfigEntry.pair

/-! ## Reverting -/

/-- What was risky before stays (once per occurrence); every other risky entry goes. -/
def dropped : List (Line × Line) → List ConfigEntry → List ConfigEntry
  | _, [] => []
  | kept, e :: rest =>
      if isRisky e.key e.value = false then dropped kept rest
      else if e.pair ∈ kept then dropped (kept.erase e.pair) rest
      else e :: dropped kept rest

/-- A section header whose every entry is reverted goes too. The headers are a set in the source; clearing a line twice
    is clearing it once. -/
def clearHeaders (all drop : List ConfigEntry) (slots : List (Option Line)) : List (Option Line) :=
  (drop.filterMap ConfigEntry.header).foldl
    (fun slots h =>
      if (all.filter fun e => e.header == some h).all fun e => drop.contains e then slots.set h none else slots) slots

/-- Keep the section header, drop the key written on the same line. -/
def headerOnly (line : Line) : Line :=
  match breakOn [']'] line with
  | some (before, _) => before ++ [']']
  | none => line

def clearEntry (slots : List (Option Line)) (e : ConfigEntry) : List (Option Line) :=
  slots.mapIdx fun i slot =>
    if e.start ≤ i ∧ i < e.end_ then
      if e.inline = true ∧ i = e.start then slot.map headerOnly else none
    else slot

/-- The lines with a line feed between them, and one at the end when the text had one there. -/
def joinLines (text : Line) (written : List Line) : Line :=
  List.intercalate ['\n'] written ++ if text.getLast? = some '\n' then ['\n'] else []

/-- The text without the lines of the dropped entries. -/
def rewrite (text : Line) (drop : List ConfigEntry) : Line :=
  let slots := drop.foldl clearEntry (clearHeaders (parseConfig text) drop ((lines text).map some))
  joinLines text slots.reduceOption

/-- What a config file is rewritten to, with the entries reported, or nothing to revert. -/
def revertConfig (risky : List (Line × Line)) (text : Line) : Option (Line × List ConfigEntry) :=
  let drop := dropped risky (parseConfig text)
  if drop.isEmpty then none else some (rewrite text drop, drop)

end AgentRuntime.Shell
