import Prephv.Fat.Volume

/-!
# Fat — Names

The strings of `fat_string.c`: the components of a path, and the names of directory entries.  A
string is the list of its characters up to the NUL.

A path that is joined from components is taken apart again (`splitPath_join`), and two names are the
same to `fatfs_compare_names` just when they have the same canonical form: without the spaces before
the extension, and in lower case (`compareNames_eq`).
-/

set_option autoImplicit false

namespace Prephv.Fat

/-- The characters that the code names: `/`, `\`, `:`, `.` and the space. -/
def slash : U8 := 0x2f
def backslash : U8 := 0x5c
def colon : U8 := 0x3a
def dot : U8 := 0x2e
def space : U8 := 0x20

/-! ### Paths -/

/-- `expectedchar`, and the path after its root: `/dev/x` or `c:\folder\x`. -/
def pathRoot (path : List U8) : Option (U8 × List U8) :=
  if path.headD 0 = slash then some (slash, path.tail)
  else if path.getD 1 0 = colon ∨ path.getD 2 0 = backslash then some (backslash, path.drop 3)
  else none

/-- The inner loop of `fatfs_total_path_levels`: past the next separator, or to the end. -/
def skipLevel (expectedchar : U8) : List U8 → List U8
  | [] => []
  | c :: path => if c = expectedchar then path else skipLevel expectedchar path

/-- The outer loop of `fatfs_total_path_levels`, with `n` iterations to go: each takes a character
at least. -/
def countLevels (expectedchar : U8) : Nat → List U8 → Nat
  | 0, _ => 0
  | _ + 1, [] => 0
  | n + 1, c :: path => countLevels expectedchar n (skipLevel expectedchar (c :: path)) + 1

/-- `fatfs_total_path_levels`. -/
def totalPathLevels (path : List U8) : Int :=
  match pathRoot path with
  | none => -1
  | some (expectedchar, path) => countLevels expectedchar path.length path - 1

/-- The loop of `fatfs_get_substring`. -/
def substringLoop (expectedchar : U8) (levelreq maxLen : Nat) : List U8 → Nat → List U8 → List U8
  | [], _, output => output
  | c :: path, levels, output =>
    let levels := if c = expectedchar then levels + 1 else levels
    let output := if levels = levelreq ∧ c ≠ expectedchar ∧ output.length < maxLen - 1
      then output ++ [c] else output
    substringLoop expectedchar levelreq maxLen path levels output

/-- `fatfs_get_substring`: the string at a level, unless it is empty. -/
def getSubstring (path : List U8) (levelreq maxLen : Nat) : Option (List U8) :=
  match pathRoot path with
  | none => none
  | some (expectedchar, path) =>
    let output := substringLoop expectedchar levelreq maxLen path 0 []
    if output = [] then none else some output

/-- `fatfs_split_path`: the path of the directory and the name in it. -/
def splitPath (fullPath : List U8) (maxPath maxFilename : Nat) : Option (List U8 × List U8) :=
  let levels := totalPathLevels fullPath
  if levels = -1 then none
  else match getSubstring fullPath levels.toNat maxFilename with
    | none => none
    | some filename =>
      if levels = 0 then some ([], filename)
      else
        let strindex := fullPath.length - filename.length
        let strindex := if strindex > maxPath then maxPath else strindex
        -- the last character is made the NUL
        some (fullPath.take (strindex - 1), filename)

/-- `/a/b/c`, from its components. -/
def joinPath (components : List (List U8)) : List U8 :=
  slash :: List.intercalate [slash] components

section Paths

variable {sep : U8} {levelreq maxLen : Nat}

theorem splitOn_cons_sep (path : List U8) :
    (sep :: path).splitOn sep = [] :: path.splitOn sep := by
  rw [List.splitOn_cons_eq_if_modifyHead, if_pos (beq_self_eq_true sep)]

theorem splitOn_cons_ne {c : U8} (hc : c ≠ sep) (path : List U8) : ∃ level levels,
    path.splitOn sep = level :: levels ∧ (c :: path).splitOn sep = (c :: level) :: levels := by
  cases hsplit : path.splitOn sep with
  | nil => exact absurd hsplit (List.splitOn_ne_nil sep path)
  | cons level levels =>
    refine ⟨level, levels, rfl, ?_⟩
    rw [List.splitOn_cons_eq_if_modifyHead, if_neg (by simpa using hc), hsplit]
    rfl

/-- Nothing is copied beyond the level. -/
theorem substringLoop_past (path : List U8) {levels : Nat} (hlevels : levelreq < levels)
    (output : List U8) : substringLoop sep levelreq maxLen path levels output = output := by
  induction path generalizing levels with
  | nil => rfl
  | cons c path ih =>
    rw [substringLoop]
    by_cases hc : c = sep
    · rw [if_pos hc, if_neg (fun h => h.2.1 hc)]
      exact ih (Nat.lt_succ_of_lt hlevels)
    · rw [if_neg hc, if_neg (fun h => absurd h.1 (Nat.ne_of_gt hlevels))]
      exact ih hlevels

/-- What the loop puts into the output: the level that is asked for, as far as there is room. -/
theorem substringLoop_eq (path : List U8) {levels : Nat} (hlevels : levels ≤ levelreq)
    (output : List U8) :
    substringLoop sep levelreq maxLen path levels output =
      output ++ ((path.splitOn sep).getD (levelreq - levels) []).take (maxLen - 1 - output.length) := by
  induction path generalizing levels output with
  | nil =>
    rw [substringLoop, List.splitOn_nil]
    cases levelreq - levels <;> simp
  | cons c path ih =>
    rw [substringLoop]
    by_cases hc : c = sep
    · subst hc
      rw [if_pos rfl, if_neg (fun h => h.2.1 rfl), splitOn_cons_sep]
      by_cases hlast : levels = levelreq
      · rw [substringLoop_past path (by omega), hlast, Nat.sub_self]
        simp
      · have hnext : levelreq - levels = levelreq - (levels + 1) + 1 := by omega
        rw [ih (by omega), hnext, List.getD_cons_succ]
    · obtain ⟨level, rest, hsplit, hcons⟩ := splitOn_cons_ne hc path
      rw [if_neg hc, ih hlevels, hsplit, hcons]
      by_cases hlast : levels = levelreq
      · rw [hlast, Nat.sub_self, List.getD_cons_zero, List.getD_cons_zero]
        by_cases hroom : output.length < maxLen - 1
        · have hleft : maxLen - 1 - output.length = maxLen - 1 - (output.length + 1) + 1 := by omega
          rw [if_pos ⟨rfl, hc, hroom⟩, List.length_append, List.length_singleton, hleft,
            List.take_succ_cons, List.append_assoc]
          rfl
        · have hnone : maxLen - 1 - output.length = 0 := by omega
          rw [if_neg (fun h => hroom h.2.2), hnone]
          simp
      · have hnext : levelreq - levels = levelreq - levels - 1 + 1 := by omega
        rw [if_neg (fun h => hlast h.1), hnext, List.getD_cons_succ, List.getD_cons_succ]

theorem skipLevel_append {level : List U8} (h : sep ∉ level) (path : List U8) :
    skipLevel sep (level ++ sep :: path) = path := by
  induction level with
  | nil => exact if_pos rfl
  | cons c level ih =>
    obtain ⟨hc, hlevel⟩ := not_or.mp (List.mem_cons.not.mp h)
    rw [List.cons_append, skipLevel, if_neg (Ne.symm hc), ih hlevel]

theorem skipLevel_last {level : List U8} (h : sep ∉ level) : skipLevel sep level = [] := by
  induction level with
  | nil => rfl
  | cons c level ih =>
    obtain ⟨hc, hlevel⟩ := not_or.mp (List.mem_cons.not.mp h)
    rw [skipLevel, if_neg (Ne.symm hc), ih hlevel]

theorem countLevels_step {n : Nat} {path : List U8} (hpath : path ≠ []) :
    countLevels sep (n + 1) path = countLevels sep n (skipLevel sep path) + 1 := by
  cases path with
  | nil => exact absurd rfl hpath
  | cons c path => rfl

theorem countLevels_nil (n : Nat) : countLevels sep n [] = 0 := by
  cases n <;> rfl

/-- The levels of a path are its components. -/
theorem countLevels_join {components : List (List U8)}
    (h : ∀ c ∈ components, c ≠ [] ∧ sep ∉ c) {n : Nat}
    (hn : (List.intercalate [sep] components).length ≤ n) :
    countLevels sep n (List.intercalate [sep] components) = components.length := by
  induction components generalizing n with
  | nil => exact countLevels_nil n
  | cons c components ih =>
    obtain ⟨hc, hsep⟩ := h c List.mem_cons_self
    have hpos := List.length_pos_of_ne_nil hc
    cases components with
    | nil =>
      rw [List.intercalate_singleton] at hn ⊢
      obtain ⟨n, rfl⟩ := Nat.exists_eq_add_of_le' (hpos.trans_le hn)
      rw [countLevels_step hc, skipLevel_last hsep, countLevels_nil]
      rfl
    | cons d components =>
      rw [List.intercalate_cons_cons, List.append_assoc, List.singleton_append] at hn ⊢
      rw [List.length_append, List.length_cons] at hn
      obtain ⟨n, rfl⟩ := Nat.exists_eq_add_of_le' (show 0 < n by omega)
      rw [countLevels_step (by simp), skipLevel_append hsep,
        ih (fun c hmem => h c (List.mem_cons_of_mem _ hmem)) (by omega)]
      rfl

theorem pathRoot_join (components : List (List U8)) :
    pathRoot (joinPath components) = some (slash, List.intercalate [slash] components) := rfl

/-- **The levels** of a path that is joined from components. -/
theorem totalPathLevels_join {components : List (List U8)}
    (h : ∀ c ∈ components, c ≠ [] ∧ slash ∉ c) :
    totalPathLevels (joinPath components) = components.length - 1 := by
  rw [totalPathLevels, pathRoot_join]
  dsimp only
  rw [countLevels_join h (Nat.le_refl _)]

/-- **The component at a level**, as far as there is room for it. -/
theorem getSubstring_join {components : List (List U8)} (hne : components ≠ [])
    (h : ∀ c ∈ components, c ≠ [] ∧ slash ∉ c) (hroom : 1 < maxLen) :
    getSubstring (joinPath components) levelreq maxLen =
      (components[levelreq]?).map (List.take (maxLen - 1)) := by
  rw [getSubstring, pathRoot_join]
  dsimp only
  rw [substringLoop_eq _ (Nat.zero_le _), List.splitOn_intercalate _ (fun c hc => (h c hc).2) hne,
    List.nil_append, List.length_nil, Nat.sub_zero, Nat.sub_zero, List.getD_eq_getElem?_getD]
  cases hget : components[levelreq]? with
  | none => simp
  | some c =>
    have hc := (h c (List.mem_of_getElem? hget)).1
    have htake : c.take (maxLen - 1) ≠ [] := by
      rw [ne_eq, List.take_eq_nil_iff, not_or]
      exact ⟨by omega, hc⟩
    exact if_neg htake

theorem joinPath_concat {components : List (List U8)} (hne : components ≠ []) (c : List U8) :
    joinPath (components ++ [c]) = joinPath components ++ slash :: c := by
  induction components with
  | nil => exact absurd rfl hne
  | cons d components ih =>
    cases components with
    | nil =>
      rw [List.singleton_append, joinPath, joinPath, List.intercalate_cons_cons,
        List.intercalate_singleton, List.intercalate_singleton]
      simp
    | cons e components =>
      have ih := ih (List.cons_ne_nil _ _)
      simp only [joinPath, List.cons_append, List.cons.injEq, true_and] at ih ⊢
      rw [List.intercalate_cons_cons, List.intercalate_cons_cons, ih]
      simp

/-- **A path is split** into that of its directory, which is empty for the root, and the name. -/
theorem splitPath_join {components : List (List U8)} {name : List U8} {maxPath maxFilename : Nat}
    (h : ∀ c ∈ components ++ [name], c ≠ [] ∧ slash ∉ c) (hname : name.length < maxFilename)
    (hpath : (joinPath components).length < maxPath) :
    splitPath (joinPath (components ++ [name])) maxPath maxFilename =
      some (if components = [] then [] else joinPath components, name) := by
  have hlast : (components ++ [name])[components.length]? = some name := by simp
  have hnonempty := List.length_pos_of_ne_nil (h name (by simp)).1
  have hlevels : totalPathLevels (joinPath (components ++ [name])) = components.length := by
    rw [totalPathLevels_join h, List.length_append, List.length_singleton]
    omega
  rw [splitPath, hlevels, Int.toNat_natCast, getSubstring_join (by simp) h (by omega), hlast,
    if_neg (by omega)]
  have hfull : name.take (maxFilename - 1) = name := List.take_of_length_le (by omega)
  dsimp only [Option.map_some]
  rw [hfull]
  by_cases hroot : components = []
  · subst hroot
    rfl
  · have hlen : (joinPath (components ++ [name])).length - name.length =
        (joinPath components).length + 1 := by
      rw [joinPath_concat hroot, List.length_append, List.length_cons]
      omega
    have hpos := List.length_pos_of_ne_nil hroot
    rw [if_neg (by omega), if_neg hroot, hlen, if_neg (by omega), Nat.add_sub_cancel,
      joinPath_concat hroot, List.take_left]

/-- **A path and its components**: their number, each of them as far as there is room for it, and the
path of the directory with the name in it. -/
theorem path_components (components : List (List U8)) (name : List U8) (maxPath maxFilename : Nat)
    (h : ∀ c ∈ components ++ [name], c ≠ [] ∧ slash ∉ c) (hname : name.length < maxFilename)
    (hpath : (joinPath components).length < maxPath) :
    totalPathLevels (joinPath (components ++ [name])) = components.length ∧
      (∀ level maxLen, 1 < maxLen →
        getSubstring (joinPath (components ++ [name])) level maxLen =
          ((components ++ [name])[level]?).map (List.take (maxLen - 1))) ∧
      splitPath (joinPath (components ++ [name])) maxPath maxFilename =
        some (if components = [] then [] else joinPath components, name) := by
  refine ⟨?_, fun level maxLen hroom => getSubstring_join (by simp) h hroom,
    splitPath_join h hname hpath⟩
  rw [totalPathLevels_join h, List.length_append, List.length_singleton]
  omega

end Paths

theorem path_components_sample :
    totalPathLevels (joinPath ([ascii "boot", ascii "nt"] ++ [ascii "hal.dll"])) = 2 ∧
      (∀ level maxLen, 1 < maxLen →
        getSubstring (joinPath ([ascii "boot", ascii "nt"] ++ [ascii "hal.dll"])) level maxLen =
          (([ascii "boot", ascii "nt"] ++ [ascii "hal.dll"])[level]?).map (List.take (maxLen - 1))) ∧
      splitPath (joinPath ([ascii "boot", ascii "nt"] ++ [ascii "hal.dll"])) 260 260 =
        some (if [ascii "boot", ascii "nt"] = [] then []
          else joinPath [ascii "boot", ascii "nt"], ascii "hal.dll") :=
  path_components [ascii "boot", ascii "nt"] (ascii "hal.dll") 260 260 (by decide) (by decide)
    (by decide)

/-! ### Names -/

/-- Upper case letters are made lower case. -/
def lower (c : U8) : U8 := if 0x41 ≤ c ∧ c ≤ 0x5a then c + 32 else c

/-- `FileString_StrCmpNoCase(s1, s2, n) == 0`. -/
def strCmpNoCase : Nat → List U8 → List U8 → Bool
  | 0, _, _ => true
  | n + 1, s1, s2 =>
    let a := lower (s1.headD 0)
    let b := lower (s2.headD 0)
    if a ≠ b then false
    else if s1.headD 0 = 0 ∨ s2.headD 0 = 0 then true
    else strCmpNoCase n s1.tail s2.tail

/-- `FileString_GetExtension`'s loop, from index `i` on: the last `.`, or `dotPos`. -/
def extensionLoop : List U8 → Nat → Option Nat → Option Nat
  | [], _, dotPos => dotPos
  | c :: str, i, dotPos => extensionLoop str (i + 1) (if c = dot then some i else dotPos)

/-- `FileString_GetExtension`. -/
def getExtension (str : List U8) : Option Nat := extensionLoop str 0 none

/-- `FileString_TrimLength`: the length without the spaces before it. -/
def trimLength (str : List U8) : Nat → Nat
  | 0 => 0
  | n + 1 => if str.getD n 0 = space then trimLength str n else n + 1

/-- `fatfs_compare_names`. -/
def compareNames (strA strB : List U8) : Bool :=
  let ext1Pos := getExtension strA
  let ext2Pos := getExtension strB
  if ext1Pos = none ∧ ext2Pos ≠ none then false
  else if ext2Pos = none ∧ ext1Pos ≠ none then false
  else
    let ext1 := strA.drop (ext1Pos.getD 0 + 1)
    let ext2 := strB.drop (ext2Pos.getD 0 + 1)
    if ext1Pos ≠ none ∧ (ext1.length ≠ ext2.length ∨ ¬ strCmpNoCase ext1.length ext1 ext2) then false
    else
      let file1Len := trimLength strA (ext1Pos.getD strA.length)
      let file2Len := trimLength strB (ext2Pos.getD strB.length)
      if file1Len ≠ file2Len then false else strCmpNoCase file1Len strA strB

/-- A name in its canonical form: what is before the extension without its last spaces, and the
extension, if there is one; both in lower case. -/
def canonical (str : List U8) : List U8 × Option (List U8) :=
  match getExtension str with
  | none => ((str.take (trimLength str str.length)).map lower, none)
  | some i => ((str.take (trimLength str i)).map lower, some ((str.drop (i + 1)).map lower))

section Names

variable {strA strB : List U8}

theorem lower_zero_iff {c : U8} : lower c = 0 ↔ c = 0 := by
  revert c
  decide

theorem strCmpNoCase_cons (n : Nat) (a b : U8) (strA strB : List U8) :
    strCmpNoCase (n + 1) (a :: strA) (b :: strB) =
      if lower a ≠ lower b then false else if a = 0 ∨ b = 0 then true
      else strCmpNoCase n strA strB := rfl

/-- The comparison of the first `n` characters of two strings that have as many. -/
theorem strCmpNoCase_iff {n : Nat} (hA : n ≤ strA.length) (hB : n ≤ strB.length)
    (hzero : (0 : U8) ∉ strA) :
    strCmpNoCase n strA strB = true ↔ (strA.take n).map lower = (strB.take n).map lower := by
  induction n generalizing strA strB with
  | zero => simp [strCmpNoCase]
  | succ n ih =>
    cases strA with
    | nil => exact absurd hA (Nat.not_succ_le_zero n)
    | cons a strA =>
      cases strB with
      | nil => exact absurd hB (Nat.not_succ_le_zero n)
      | cons b strB =>
        obtain ⟨ha, hzero⟩ := not_or.mp (List.mem_cons.not.mp hzero)
        have ih := ih (Nat.le_of_succ_le_succ hA) (Nat.le_of_succ_le_succ hB) hzero
        rw [strCmpNoCase_cons, List.take_succ_cons, List.take_succ_cons, List.map_cons,
          List.map_cons, List.cons.injEq]
        by_cases hab : lower a = lower b
        · have hb : b ≠ 0 := fun hb => ha (lower_zero_iff.mp
            (hab.trans (lower_zero_iff.mpr hb))).symm
          rw [if_neg (not_not.mpr hab), if_neg (not_or.mpr ⟨Ne.symm ha, hb⟩), ih]
          exact ⟨fun h => ⟨hab, h⟩, fun h => h.2⟩
        · rw [if_pos hab]
          exact iff_of_false Bool.false_ne_true fun h => hab h.1

theorem trimLength_le (str : List U8) (n : Nat) : trimLength str n ≤ n := by
  induction n with
  | zero => exact Nat.le_refl _
  | succ n ih =>
    rw [trimLength]
    split
    · exact ih.trans (Nat.le_succ n)
    · exact Nat.le_refl _

theorem extensionLoop_lt (str : List U8) {i : Nat} {dotPos : Option Nat}
    (h : ∀ j ∈ dotPos, j < i) : ∀ j ∈ extensionLoop str i dotPos, j < i + str.length := by
  induction str generalizing i dotPos with
  | nil => exact h
  | cons c str ih =>
    intro j hj
    rw [extensionLoop] at hj
    rw [List.length_cons, Nat.add_comm str.length 1, ← Nat.add_assoc]
    refine ih (fun j hj => ?_) j hj
    split at hj
    · cases hj
      exact Nat.lt_succ_self i
    · exact Nat.lt_succ_of_lt (h j hj)

/-- The extension is in the name. -/
theorem getExtension_lt {str : List U8} {i : Nat} (h : getExtension str = some i) :
    i < str.length := by
  have hnone : ∀ j ∈ (none : Option Nat), j < 0 := nofun
  have hlt := extensionLoop_lt str hnone i h
  omega

/-- Two strings of the same length up to `n` and `m`, compared. -/
theorem strCmpNoCase_take_iff {n m : Nat} (hA : n ≤ strA.length) (hB : m ≤ strB.length)
    (hzero : (0 : U8) ∉ strA) :
    (n = m ∧ strCmpNoCase n strA strB = true) ↔
      (strA.take n).map lower = (strB.take m).map lower := by
  constructor
  · rintro ⟨rfl, h⟩
    exact (strCmpNoCase_iff hA hB hzero).mp h
  · intro h
    have hlen := congrArg List.length h
    rw [List.length_map, List.length_map, List.length_take_of_le hA, List.length_take_of_le hB]
      at hlen
    subst hlen
    exact ⟨rfl, (strCmpNoCase_iff hA hB hzero).mpr h⟩

/-- **Two names are the same** just when their canonical forms are. -/
theorem compareNames_eq (hzero : (0 : U8) ∉ strA) :
    compareNames strA strB = true ↔ canonical strA = canonical strB := by
  have hbase : ∀ i j, i ≤ strA.length → j ≤ strB.length →
      ((if trimLength strA i ≠ trimLength strB j then false
        else strCmpNoCase (trimLength strA i) strA strB) = true ↔
        (strA.take (trimLength strA i)).map lower = (strB.take (trimLength strB j)).map lower) := by
    intro i j hi hj
    rw [← strCmpNoCase_take_iff ((trimLength_le strA i).trans hi) ((trimLength_le strB j).trans hj)
      hzero]
    split
    · next h => exact iff_of_false Bool.false_ne_true fun hno => h hno.1
    · next h => exact ⟨fun hcmp => ⟨not_not.mp h, hcmp⟩, fun hcmp => hcmp.2⟩
  rw [compareNames, canonical, canonical]
  cases hA : getExtension strA with
  | none =>
    cases hB : getExtension strB with
    | none => simpa using hbase strA.length strB.length (Nat.le_refl _) (Nat.le_refl _)
    | some j => simp
  | some i =>
    have hi := getExtension_lt hA
    cases hB : getExtension strB with
    | none => simp
    | some j =>
      have hj := getExtension_lt hB
      have hext := @strCmpNoCase_take_iff (strA.drop (i + 1)) (strB.drop (j + 1)) _ _
        (Nat.le_refl _) (Nat.le_refl _) (fun h => hzero (List.mem_of_mem_drop h))
      rw [List.take_length, List.take_length] at hext
      have hb := hbase i j hi.le hj.le
      simp only [reduceCtorEq, false_and, if_false, Option.getD_some, ne_eq,
        not_false_eq_true, true_and, Prod.mk.injEq, Option.some.injEq, ← hb, ← hext]
      split
      · next h => exact iff_of_false Bool.false_ne_true fun hno => h.elim (· hno.2.1) (· hno.2.2)
      · next h =>
        obtain ⟨hlen, hcmp⟩ := not_or.mp h
        exact ⟨fun hbase => ⟨hbase, not_not.mp hlen, not_not.mp hcmp⟩, fun hbase => hbase.1⟩

end Names

end Prephv.Fat
