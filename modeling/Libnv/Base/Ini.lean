import Libnv.Lib.CText

/-!
# INI files

The parser `nv_ini_load` reads a file in pieces of at most 1023 bytes, each
taken as a line: a `;` starts a comment, `[name]` sets the section and
`key = value` adds an entry at the head of the list.  Lookups return the first
match, so a later entry hides an earlier one.  Allocation is taken to succeed.
-/

namespace Libnv.Ini

open CText

/-- `nv_ini_entry_t`. -/
structure IniEntry where
  sectionName : CString
  key : CString
  value : CString
deriving DecidableEq

/-- `nv_ini_t`: the entries from `head` on. -/
abbrev IniFile := List IniEntry

/-- The string `nv_ini_trim_inplace` returns and what it leaves in the buffer. -/
def nvIniTrimInplace (s : List UInt8) : List UInt8 × List UInt8 :=
  match s.dropWhile isSpace with
  | [] => ([], s)
  | b :: bs =>
      let trimmed := (b :: bs).rdropWhile isSpace
      (trimmed, s.takeWhile isSpace ++ trimmed)

def nvIniStripComment (line : List UInt8) : List UInt8 :=
  if 59 ∈ line then (nvIniTrimInplace (line.takeWhile (· ≠ 59))).2 else line

/-- The section buffer and the entries while the file is read. -/
structure IniParse where
  sectionName : CString
  entries : IniFile
deriving DecidableEq

def nvIniAddEntry (st : IniParse) (key value : List UInt8) : IniParse :=
  { st with
    entries :=
      { sectionName := st.sectionName
        key := CString.ofBuffer key
        value := CString.ofBuffer value } :: st.entries }

/-- The body of the loop of `nv_ini_load` once the line is trimmed. -/
def nvIniText (st : IniParse) (text : List UInt8) : IniParse :=
  match text with
  | [] => st
  | 91 :: p =>
      if 93 ∈ p then
        -- only the buffer is trimmed: blanks before the name stay
        let name := (p.takeWhile (· ≠ 93)).take 127
        { st with sectionName := CString.ofBuffer (nvIniTrimInplace name).2 }
      else st
  | p =>
      if 61 ∈ p then
        let key := (nvIniTrimInplace (p.takeWhile (· ≠ 61))).1
        let value := (nvIniTrimInplace ((p.dropWhile (· ≠ 61)).drop 1)).1
        if key = [] then st else nvIniAddEntry st key value
      else st

/-- The body of the loop of `nv_ini_load` for one buffer. -/
def nvIniLine (st : IniParse) (line : List UInt8) : IniParse :=
  nvIniText st (nvIniTrimInplace (nvIniStripComment (CString.ofBuffer line).bytes)).1

/-- `nv_ini_load` on the contents of a file. -/
def nvIniLoad (content : List UInt8) : IniFile :=
  ((fgetsLines 1024 content).foldl nvIniLine ⟨CString.empty, []⟩).entries

def nvIniFind (ini : IniFile) (sectionName key : CString) : Option IniEntry :=
  ini.find? fun entry =>
    equalIgnoreCase entry.sectionName sectionName && decide (entry.key = key)

def nvIniHasKey (ini : IniFile) (sectionName key : CString) : Bool :=
  (nvIniFind ini sectionName key).isSome

/-- The section and the default may be `NULL`. -/
def nvIniGetString (ini : IniFile) (sectionName : Option CString) (key : CString)
    (default : Option CString) : Option CString :=
  match nvIniFind ini (sectionName.getD CString.empty) key with
  | some entry => some entry.value
  | none => default

def nvIniGetBool (ini : IniFile) (sectionName key : CString) (default : Int) : Int :=
  match nvIniGetString ini sectionName key none with
  | none => default
  | some value =>
      if equalIgnoreCase value (lit "true") ∨ equalIgnoreCase value (lit "yes") ∨
          equalIgnoreCase value (lit "on") ∨ value = lit "1" then 1
      else if equalIgnoreCase value (lit "false") ∨ equalIgnoreCase value (lit "no") ∨
          equalIgnoreCase value (lit "off") ∨ value = lit "0" then 0
      else default

def nvIniGetInt (ini : IniFile) (sectionName key : CString) (default : Int) : Int :=
  match nvIniGetString ini sectionName key none with
  | none => default
  | some value => toInt (strtol value).1

def nvIniGetInt64 (ini : IniFile) (sectionName key : CString) (default : Int) : Int :=
  match nvIniGetString ini sectionName key none with
  | none => default
  | some value => (strtol value).1

end Libnv.Ini
