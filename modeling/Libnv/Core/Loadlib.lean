import Libnv.Lib.CText

/-!
# `loadlib` directives

`nv_core_loadlibs_parse_config` reads the configuration file a second time and
collects the lines `loadlib path [args]`, each token bare or in double quotes.
A path is resolved against the plug-in directory.  Allocation is taken to
succeed.
-/

namespace Libnv.Core

open CText

/-- The parsed part of `nv_core_loadlib_t`. -/
structure LoadLib where
  path : CString
  args : CString
deriving DecidableEq

/-- The loop of `nv_loadlib_strip_comment`. -/
def stripCommentLoop (inQuote escape : Bool) : List UInt8 → List UInt8
  | [] => []
  | b :: bs =>
      if escape then b :: stripCommentLoop inQuote false bs
      else if b = 92 ∧ inQuote then b :: stripCommentLoop inQuote true bs
      else if b = 34 then b :: stripCommentLoop (!inQuote) false bs
      else if b = 59 ∧ ¬ inQuote then []
      else b :: stripCommentLoop inQuote false bs

def nvLoadlibStripComment (line : List UInt8) : List UInt8 :=
  stripCommentLoop false false line

/-- The quoted branch of `nv_loadlib_parse_token`, with `room` bytes left in `buf`. -/
def quotedToken : Nat → List UInt8 → Option (List UInt8 × List UInt8)
  | _, [] => none
  | _, 34 :: bs => some ([], bs)
  | 0, _ :: _ => none
  | room + 1, 92 :: b :: bs =>
      (quotedToken room bs).map fun (token, rest) => (b :: token, rest)
  | room + 1, b :: bs =>
      (quotedToken room bs).map fun (token, rest) => (b :: token, rest)

/-- The bare branch of `nv_loadlib_parse_token`. -/
def bareToken : Nat → List UInt8 → Option (List UInt8 × List UInt8)
  | _, [] => some ([], [])
  | room, b :: bs =>
      if isSpace b then some ([], b :: bs)
      else
        match room with
        | 0 => none
        | room + 1 => (bareToken room bs).map fun (token, rest) => (b :: token, rest)

/-- The results of `nv_loadlib_parse_token`. -/
inductive TokenResult where
  | declined
  | error
  | ok (token : CString) (rest : List UInt8)
deriving DecidableEq

/-- The token and its NUL must fit in `size` bytes. -/
def nvLoadlibParseToken (src : List UInt8) (size : Nat) : TokenResult :=
  let found :=
    match src.dropWhile isSpace with
    | [] => none
    | 34 :: bs => some (quotedToken (size - 1) bs)
    | bs => some (bareToken (size - 1) bs)
  match found with
  | none => .declined
  | some none => .error
  | some (some (token, rest)) => .ok (CString.ofBuffer token) rest

def nvLoadlibPathIsUnderDir (path dir : CString) : Bool :=
  dir.bytes ≠ [] ∧ dir.bytes <+: path.bytes ∧
    ((path.bytes.drop dir.length).head? = none ∨
      (path.bytes.drop dir.length).head? = some 47)

/-- Why a directive is refused; each but `rejected` has its own logged text. -/
inductive LoadlibError where
  /-- "config loadlib parse failed at line %d" -/
  | parseFailed (lineno : Nat)
  /-- "config loadlib args parse failed at line %d" -/
  | argsParseFailed (lineno : Nat)
  /-- "config loadlib has unexpected token at line %d" -/
  | unexpectedToken (lineno : Nat)
  /-- An empty path, or one with `..` in it. -/
  | rejected (path : CString)
  /-- "loadlib: absolute path denied: %s" -/
  | absoluteDenied (path : CString)
  /-- "loadlib: path outside plugin_dir: %s" -/
  | outsidePluginDir (path : CString)
  /-- "loadlib: relative path with '/' denied: %s" -/
  | relativeDenied (path : CString)
deriving DecidableEq

/-- The options that `nv_core_loadlib_resolve_path` reads. -/
structure LoadlibOpts where
  dir : Option CString
  allowAbsolute : Int

/-- The directory is set and not empty. -/
def LoadlibOpts.dir? (o : LoadlibOpts) : Option CString :=
  o.dir.filter fun d => d.bytes ≠ []

def nvCoreLoadlibResolvePath (o : LoadlibOpts) (path : CString) :
    Except LoadlibError CString :=
  if path.bytes = [] ∨ [46, 46] <:+: path.bytes then .error (.rejected path)
  else if path.bytes.head? = some 47 then
    if o.allowAbsolute = 0 then .error (.absoluteDenied path)
    else
      match o.dir? with
      | some dir =>
          if nvLoadlibPathIsUnderDir path dir then .ok path
          else .error (.outsidePluginDir path)
      | none => .ok path
  else if 47 ∈ path.bytes then
    if o.allowAbsolute = 0 then .error (.relativeDenied path)
    else .ok path
  else
    match o.dir? with
    | none => .ok path
    | some dir => .ok (CString.ofBuffer ((dir.bytes ++ 47 :: path.bytes).take 4095))

/-- Whether a trimmed line is a `loadlib` directive. -/
def isLoadlibLine (trimmed : List UInt8) : Bool :=
  (lit "loadlib").bytes <+: trimmed ∧
    ((trimmed.drop 7).head?.map isSpace).getD true

/-- What one `loadlib` directive adds. -/
def parseLoadlibLine (o : LoadlibOpts) (lineno : Nat) (trimmed : List UInt8) :
    Except LoadlibError LoadLib :=
  match nvLoadlibParseToken (trimmed.drop 7) 512 with
  | .declined | .error => .error (.parseFailed lineno)
  | .ok path rest =>
      if path.bytes = [] then .error (.parseFailed lineno)
      else
        match nvLoadlibParseToken rest 512 with
        | .error => .error (.argsParseFailed lineno)
        | .declined =>
            (nvCoreLoadlibResolvePath o path).map fun path => ⟨path, CString.empty⟩
        | .ok args rest =>
            if trim rest ≠ [] then .error (.unexpectedToken lineno)
            else (nvCoreLoadlibResolvePath o path).map fun path => ⟨path, args⟩

/-- The loop of `nv_core_loadlibs_parse_config`; the list keeps what was appended. -/
def loadlibLoop (o : LoadlibOpts) :
    Nat → List LoadLib → List (List UInt8) → List LoadLib × Except LoadlibError Unit
  | _, libs, [] => (libs, .ok ())
  | lineno, libs, line :: lines =>
      let trimmed := trim (nvLoadlibStripComment (CString.ofBuffer line).bytes)
      if isLoadlibLine trimmed then
        match parseLoadlibLine o lineno trimmed with
        | .error e => (libs, .error e)
        | .ok lib => loadlibLoop o (lineno + 1) (libs ++ [lib]) lines
      else loadlibLoop o (lineno + 1) libs lines

/--
`nv_core_loadlibs_parse_config` on the file's contents, if it can be opened:
the new list, and whether `NV_OK` is returned.
-/
def nvCoreLoadlibsParseConfig (o : LoadlibOpts) (loaded : Bool) (libs : List LoadLib)
    (content : Option (List UInt8)) : List LoadLib × Except LoadlibError Unit :=
  if loaded then (libs, .ok ())
  else
    match content with
    | none => ([], .ok ())
    | some content => loadlibLoop o 1 [] (fgetsLines 1024 content)

end Libnv.Core
