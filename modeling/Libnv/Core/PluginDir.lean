import Libnv.Core.Config
import Libnv.Lib.Lines

/-!
# Plug-ins come from the plug-in directory

Without `allow_absolute`, a `loadlib` directive can only name a file of the plug-in
directory: whatever quoting, escapes and comments make of the line, the token that
comes out is looked at as a whole.  A token has at most 511 bytes, so that joining
it to a directory of up to 1023 does not cut the path.

The list is built line by line, where a line is what one `fgets` reads.
-/

namespace Libnv.Core

open CText

/-- The path names a file of the directory `d` itself. -/
def InPluginDir (d path : CString) : Prop :=
  ∃ name : CString, path.bytes = d.bytes ++ 47 :: name.bytes ∧
    name.bytes ≠ [] ∧ 47 ∉ name.bytes ∧ ¬ [46, 46] <:+: name.bytes

/-- The entry that a line adds to the list, if it is a directive without an error. -/
def loadlibEntry (o : LoadlibOpts) (line : List UInt8) : Option LoadLib :=
  let trimmed := trim (nvLoadlibStripComment (CString.ofBuffer line).bytes)
  if isLoadlibLine trimmed then (parseLoadlibLine o 0 trimmed).toOption else none

/-- The entries are those of the first lines of the file, in their order. -/
def InFileOrder (o : LoadlibOpts) (content : List UInt8) (libs : List LoadLib) : Prop :=
  ∃ lines unread, fgetsLines 1024 content = lines ++ unread ∧
    (lines ++ unread).flatten = content ∧ libs = lines.filterMap (loadlibEntry o)

theorem quotedToken_length
    {room : Nat} {bs token rest : List UInt8} (h : quotedToken room bs = some (token, rest)) :
    token.length ≤ room := by
  fun_induction quotedToken room bs generalizing token rest with
  | case1 => exact absurd h.symm (Option.some_ne_none _)
  | case2 =>
      obtain ⟨rfl, -⟩ := Prod.mk.inj (Option.some.inj h)
      exact Nat.zero_le _
  | case3 => exact absurd h.symm (Option.some_ne_none _)
  | case4 room b bs ih =>
      obtain ⟨⟨token', rest'⟩, hfound, heq⟩ := Option.map_eq_some_iff.mp h
      obtain ⟨rfl, -⟩ := Prod.mk.inj heq
      exact Nat.succ_le_succ (ih hfound)
  | case5 room b bs _ _ ih =>
      obtain ⟨⟨token', rest'⟩, hfound, heq⟩ := Option.map_eq_some_iff.mp h
      obtain ⟨rfl, -⟩ := Prod.mk.inj heq
      exact Nat.succ_le_succ (ih hfound)

theorem bareToken_length
    {room : Nat} {bs token rest : List UInt8} (h : bareToken room bs = some (token, rest)) :
    token.length ≤ room := by
  fun_induction bareToken room bs generalizing token rest with
  | case1 =>
      obtain ⟨rfl, -⟩ := Prod.mk.inj (Option.some.inj h)
      exact Nat.zero_le _
  | case2 =>
      obtain ⟨rfl, -⟩ := Prod.mk.inj (Option.some.inj h)
      exact Nat.zero_le _
  | case3 => exact absurd h.symm (Option.some_ne_none _)
  | case4 b bs _ room ih =>
      obtain ⟨⟨token', rest'⟩, hfound, heq⟩ := Option.map_eq_some_iff.mp h
      obtain ⟨rfl, -⟩ := Prod.mk.inj heq
      exact Nat.succ_le_succ (ih hfound)

theorem nvLoadlibParseToken_length {src rest : List UInt8} {size : Nat} {token : CString}
    (h : nvLoadlibParseToken src size = .ok token rest) : token.length ≤ size - 1 := by
  have hcut : ∀ bytes : List UInt8, (CString.ofBuffer bytes).length ≤ bytes.length :=
    fun bytes => (List.takeWhile_prefix _).length_le
  have hfits : ∀ found : Option (List UInt8 × List UInt8),
      (∀ bytes rest, found = some (bytes, rest) → bytes.length ≤ size - 1) →
      (match found with
        | none => TokenResult.error
        | some (bytes, rest) => .ok (CString.ofBuffer bytes) rest) = .ok token rest →
      token.length ≤ size - 1 := by
    rintro (_ | ⟨bytes, rest'⟩) hbytes hok
    · cases hok
    · obtain ⟨rfl, -⟩ := TokenResult.ok.inj hok
      exact (hcut bytes).trans (hbytes bytes rest' rfl)
  unfold nvLoadlibParseToken at h
  split at h
  · cases h
  · next bs _ =>
      refine hfits (quotedToken (size - 1) bs) (fun _ _ => quotedToken_length) ?_
      rw [← h]
      cases quotedToken (size - 1) bs <;> rfl
  · refine hfits (bareToken (size - 1) (src.dropWhile isSpace)) (fun _ _ => bareToken_length) ?_
    rw [← h]
    cases bareToken (size - 1) (src.dropWhile isSpace) <;> rfl

section Resolve

variable {d : CString}

/-- A path that is accepted without `allow_absolute` is a file of the directory. -/
theorem nvCoreLoadlibResolvePath_ok (hd : d.bytes ≠ []) (hlen : d.length ≤ 1023)
    {path resolved : CString} (hpath : path.length ≤ 511)
    (h : nvCoreLoadlibResolvePath ⟨some d, 0⟩ path = .ok resolved) : InPluginDir d resolved := by
  have hdir : LoadlibOpts.dir? ⟨some d, 0⟩ = some d := by
    simp [LoadlibOpts.dir?, Option.filter, hd]
  unfold nvCoreLoadlibResolvePath at h
  rw [hdir] at h
  split_ifs at h with hrejected hhead habsolute hslash hrelative
  · exact absurd rfl habsolute
  · exact absurd rfl hrelative
  obtain ⟨hne, hdots⟩ := not_or.mp hrejected
  obtain rfl := Except.ok.inj h
  refine ⟨path, ?_, hne, hslash, hdots⟩
  have hjoined : (0 : UInt8) ∉ d.bytes ++ 47 :: path.bytes := by
    have hd0 := d.nulFree
    have hpath0 := path.nulFree
    simp [hd0, hpath0]
  have hfits : (d.bytes ++ 47 :: path.bytes).length ≤ 4095 := by
    unfold CString.length at hlen hpath
    rw [List.length_append, List.length_cons]
    omega
  rw [List.take_of_length_le hfits]
  exact congrArg CString.bytes (CString.ofBuffer_bytes ⟨_, hjoined⟩)

/-- Every entry comes from the directory. -/
theorem parseLoadlibLine_ok (hd : d.bytes ≠ []) (hlen : d.length ≤ 1023) {lineno : Nat}
    {trimmed : List UInt8} {lib : LoadLib}
    (h : parseLoadlibLine ⟨some d, 0⟩ lineno trimmed = .ok lib) : InPluginDir d lib.path := by
  unfold parseLoadlibLine at h
  split at h
  · cases h
  · cases h
  · next path rest htoken =>
      have hpath : path.length ≤ 511 := nvLoadlibParseToken_length htoken
      have hresolved : ∀ args, (nvCoreLoadlibResolvePath ⟨some d, 0⟩ path).map
          (fun path => LoadLib.mk path args) = .ok lib → InPluginDir d lib.path := by
        intro args hmap
        cases hresolve : nvCoreLoadlibResolvePath ⟨some d, 0⟩ path with
        | error e =>
            rw [hresolve] at hmap
            cases hmap
        | ok resolved =>
            rw [hresolve] at hmap
            obtain rfl := Except.ok.inj hmap
            exact nvCoreLoadlibResolvePath_ok hd hlen hpath hresolve
      split_ifs at h
      split at h
      · cases h
      · exact hresolved _ h
      · split_ifs at h
        exact hresolved _ h

theorem parseLoadlibLine_toOption (o : LoadlibOpts) (lineno : Nat) (trimmed : List UInt8) :
    (parseLoadlibLine o lineno trimmed).toOption = (parseLoadlibLine o 0 trimmed).toOption := by
  unfold parseLoadlibLine
  split
  · rfl
  · rfl
  · split_ifs
    · rfl
    · split
      · rfl
      · rfl
      · split_ifs <;> rfl

end Resolve

theorem loadlibLoop_entries
    (o : LoadlibOpts) (lineno : Nat) (libs : List LoadLib) (lines : List (List UInt8)) :
    ∃ done unread, lines = done ++ unread ∧
      (loadlibLoop o lineno libs lines).1 = libs ++ done.filterMap (loadlibEntry o) := by
  induction lines generalizing lineno libs with
  | nil => exact ⟨[], [], rfl, (List.append_nil libs).symm⟩
  | cons line lines ih =>
      unfold loadlibLoop
      dsimp only
      split
      next hdirective =>
        have hentry : loadlibEntry o line = (parseLoadlibLine o lineno
            (trim (nvLoadlibStripComment (CString.ofBuffer line).bytes))).toOption := by
          rw [parseLoadlibLine_toOption]
          exact if_pos hdirective
        split
        next e _ => exact ⟨[], line :: lines, rfl, (List.append_nil libs).symm⟩
        next lib hparsed =>
          obtain ⟨done, unread, hlines, hlibs⟩ := ih (lineno + 1) (libs ++ [lib])
          have hsome : loadlibEntry o line = some lib := by
            rw [hentry, hparsed]
            rfl
          refine ⟨line :: done, unread, congrArg (line :: ·) hlines, ?_⟩
          rw [hlibs, List.filterMap_cons_some hsome, List.append_assoc, List.singleton_append]
      next hother =>
        obtain ⟨done, unread, hlines, hlibs⟩ := ih (lineno + 1) libs
        have hnone : loadlibEntry o line = none := if_neg hother
        refine ⟨line :: done, unread, congrArg (line :: ·) hlines, ?_⟩
        rw [hlibs, List.filterMap_cons_none hnone]

theorem loadlibEntry_inPluginDir {d : CString} (hd : d.bytes ≠ []) (hlen : d.length ≤ 1023)
    {line : List UInt8} {lib : LoadLib} (h : loadlibEntry ⟨some d, 0⟩ line = some lib) :
    InPluginDir d lib.path := by
  unfold loadlibEntry at h
  dsimp only at h
  split_ifs at h
  cases hparsed : parseLoadlibLine ⟨some d, 0⟩ 0
      (trim (nvLoadlibStripComment (CString.ofBuffer line).bytes)) with
  | error e =>
      rw [hparsed] at h
      cases h
  | ok lib' =>
      rw [hparsed] at h
      obtain rfl := Option.some.inj h
      exact parseLoadlibLine_ok hd hlen hparsed

/--
With `loadlibs_loaded` and `allow_absolute` zero and a plug-in directory of 1 to 1023
bytes, every entry that `nv_core_loadlibs_parse_config` leaves is a file of that
directory, whatever the configuration file contains and whether the result is
`NV_OK` or `NV_ERROR`, and the entries stand in the order of the file.
-/
theorem nvCoreLoadlibsParseConfig_in_plugin_dir
    (ctx : CoreCtx)
    (content : Option (List UInt8))
    (d : CString)
    (hloaded : ctx.loadlibsLoaded = false)
    (habsolute : ctx.opts.loadlibAllowAbsolute = 0)
    (hdir : ctx.opts.loadlibDir = some d)
    (hd : d.bytes ≠ [])
    (hlen : d.length ≤ 1023) :
    let libs :=
      (nvCoreLoadlibsParseConfig ctx.opts.loadlib ctx.loadlibsLoaded ctx.loadlibs content).1
    (∀ lib ∈ libs, InPluginDir d lib.path) ∧
      InFileOrder ctx.opts.loadlib (content.getD []) libs := by
  have hopts : ctx.opts.loadlib = ⟨some d, 0⟩ := by
    rw [CoreOpts.loadlib, hdir, habsolute]
  have hflatten : (fgetsLines 1024 (content.getD [])).flatten = content.getD [] :=
    flatten_fgetsLines (by decide) _
  rw [hopts]
  unfold nvCoreLoadlibsParseConfig
  rw [hloaded, if_neg Bool.false_ne_true]
  cases content with
  | none => exact ⟨fun lib hlib => absurd hlib List.not_mem_nil, [], [], rfl, hflatten, rfl⟩
  | some content =>
      obtain ⟨lines, unread, hlines, hlibs⟩ :=
        loadlibLoop_entries ⟨some d, 0⟩ 1 [] (fgetsLines 1024 content)
      rw [List.nil_append] at hlibs
      refine ⟨?_, lines, unread, hlines, hlines ▸ hflatten, hlibs⟩
      intro lib hlib
      dsimp only at hlib
      rw [hlibs] at hlib
      obtain ⟨line, -, hentry⟩ := List.mem_filterMap.mp hlib
      exact loadlibEntry_inPluginDir hd hlen hentry

/-- Two plug-ins, and a third directive that leaves the directory and is refused. -/
def pluginLines : List UInt8 :=
  (lit "loadlib \"mod a.so\" x ; first\nloadlib b.so\nloadlib ../c.so\n").bytes

theorem nvCoreLoadlibsParseConfig_in_default_dir :
    let libs := (nvCoreLoadlibsParseConfig nvCoreSetDefaults.opts.loadlib
      nvCoreSetDefaults.loadlibsLoaded nvCoreSetDefaults.loadlibs (some pluginLines)).1
    libs.map LoadLib.path =
        [lit "/usr/lib/nv/plugins/mod a.so", lit "/usr/lib/nv/plugins/b.so"] ∧
      ∀ lib ∈ libs, InPluginDir (lit "/usr/lib/nv/plugins") lib.path :=
  ⟨by decide +kernel,
    (nvCoreLoadlibsParseConfig_in_plugin_dir nvCoreSetDefaults (some pluginLines)
      (lit "/usr/lib/nv/plugins") rfl rfl rfl (by decide) (by decide)).1⟩

end Libnv.Core
