import Mathlib.Data.List.Find
import Mathlib.Data.List.TakeWhile
import Prephv.Fat.Directory

/-!
# Fat — Listing

What `fl_readdir` shows of a directory against what `fl_fopen` finds in it by name.

An entry has eleven characters: a name padded to eight with spaces, and an extension padded to
three.  A listing drops the spaces and puts a dot between the two (`listed_named`).  A lookup keeps
the spaces after the extension, so it has three characters or none (`canonical_short`): a file is
found by the name that it is listed under, unless its extension has one or two characters, and then
nothing is (`listed_lookup`).
-/

set_option autoImplicit false

namespace Prephv.Fat

open Cache (Reads)

/-! ### Canonical forms -/

section Canonical

variable {str base x : List U8}

theorem extensionLoop_append (l str : List U8) (i : Nat) (dotPos : Option Nat) :
    extensionLoop (l ++ str) i dotPos = extensionLoop str (i + l.length) (extensionLoop l i dotPos) := by
  induction l generalizing i dotPos with
  | nil => rfl
  | cons c l ih =>
    rw [List.cons_append, extensionLoop, extensionLoop, ih, List.length_cons, Nat.add_right_comm,
      ← Nat.add_assoc]

theorem extensionLoop_plain (h : dot ∉ str) (i : Nat) (dotPos : Option Nat) :
    extensionLoop str i dotPos = dotPos := by
  induction str generalizing i dotPos with
  | nil => rfl
  | cons c str ih =>
    obtain ⟨hc, hstr⟩ := not_or.mp (List.mem_cons.not.mp h)
    rw [extensionLoop, if_neg (Ne.symm hc), ih hstr]

/-- The extension is after the last dot. -/
theorem getExtension_last (l : List U8) (h : dot ∉ x) :
    getExtension (l ++ dot :: x) = some l.length := by
  rw [getExtension, extensionLoop_append, extensionLoop, if_pos rfl, extensionLoop_plain h,
    Nat.zero_add]

theorem trimLength_plain (h : space ∉ base) (str : List U8) :
    trimLength (base ++ str) base.length = base.length := by
  cases hlen : base.length with
  | zero => rfl
  | succ n =>
    have hn : n < base.length := by omega
    have hget : (base ++ str).getD n 0 = base[n] := by
      rw [List.getD_eq_getElem?_getD, List.getElem?_append_left hn, List.getElem?_eq_getElem hn]
      rfl
    have hne : base[n] ≠ space := fun hc => h (hc.symm ▸ List.getElem_mem hn)
    rw [trimLength, hget, if_neg hne]

/-- The spaces at the end are not counted. -/
theorem trimLength_pad (h : space ∉ base) (n : Nat) (str : List U8) :
    trimLength (base ++ List.replicate n space ++ str) (base.length + n) = base.length := by
  -- down from the last space, whatever is behind it
  have hdown : ∀ k ≤ n, trimLength (base ++ List.replicate n space ++ str) (base.length + k) =
      base.length := by
    intro k hk
    induction k with
    | zero =>
      rw [List.append_assoc]
      exact trimLength_plain h _
    | succ k ih =>
      have hget : (base ++ List.replicate n space ++ str).getD (base.length + k) 0 = space := by
        have hlt : base.length + k < (base ++ List.replicate n space).length := by
          rw [List.length_append, List.length_replicate]
          omega
        rw [List.getD_eq_getElem?_getD, List.getElem?_append_left hlt,
          List.getElem?_append_right (Nat.le_add_right _ _), Nat.add_sub_cancel_left,
          List.getElem?_replicate, if_pos (by omega)]
        rfl
      rw [← Nat.add_assoc, trimLength, hget, if_pos rfl]
      exact ih (by omega)
  exact hdown n (Nat.le_refl n)

/-- A padded name without an extension. -/
theorem canonical_base (hspace : space ∉ base) (hdot : dot ∉ base) (n : Nat) :
    canonical (base ++ List.replicate n space) = (base.map lower, none) := by
  have hplain : dot ∉ base ++ List.replicate n space := by
    rw [List.mem_append, List.mem_replicate, not_or]
    exact ⟨hdot, fun h => absurd h.2 (by decide)⟩
  have htrim := trimLength_pad hspace n []
  rw [List.append_nil] at htrim
  rw [canonical, getExtension, extensionLoop_plain hplain]
  dsimp only
  rw [List.length_append, List.length_replicate, htrim, List.take_left]

/-- A padded name with an extension. -/
theorem canonical_ext (hspace : space ∉ base) (hx : dot ∉ x) (n : Nat) :
    canonical (base ++ List.replicate n space ++ dot :: x) =
      (base.map lower, some (x.map lower)) := by
  have hlen : (base ++ List.replicate n space).length = base.length + n := by
    rw [List.length_append, List.length_replicate]
  rw [canonical, getExtension_last _ hx]
  dsimp only
  have hdrop : (base ++ List.replicate n space ++ dot :: x).drop (base.length + n + 1) = x := by
    rw [← List.drop_drop, ← hlen, List.drop_left]
    rfl
  rw [hlen, trimLength_pad hspace, hdrop, List.append_assoc, List.take_left]

end Canonical

/-! ### Lower case -/

theorem lower_lower (c : U8) : lower (lower c) = lower c := by
  revert c
  decide

theorem lower_space_iff {c : U8} : lower c = space ↔ c = space := by
  revert c
  decide

theorem lower_dot_iff {c : U8} : lower c = dot ↔ c = dot := by
  revert c
  decide

theorem map_lower_lower (l : List U8) : (l.map lower).map lower = l.map lower := by
  rw [List.map_map]
  exact List.map_congr_left fun c _ => lower_lower c

theorem space_mem_lower {l : List U8} : space ∈ l.map lower ↔ space ∈ l := by
  simp only [List.mem_map, lower_space_iff, exists_eq_right]

theorem dot_mem_lower {l : List U8} : dot ∈ l.map lower ↔ dot ∈ l := by
  simp only [List.mem_map, lower_dot_iff, exists_eq_right]

/-- The name that is shown: no spaces, in lower case, and cut to twelve characters. -/
theorem displayLoop_eq (str : List U8) (len : Nat) :
    displayLoop str len = ((str.filter (· ≠ space)).take (12 - len)).map lower := by
  induction str generalizing len with
  | nil => simp [displayLoop]
  | cons c str ih =>
    rw [displayLoop]
    by_cases hlen : len ≤ 11
    · rw [if_pos hlen]
      by_cases hc : c = space
      · rw [if_pos hc, ih, List.filter_cons_of_neg (by simpa using hc)]
      · have hnext : 12 - len = 12 - (len + 1) + 1 := by omega
        rw [if_neg hc, ih, List.filter_cons_of_pos (by simpa using hc), hnext, List.take_succ_cons,
          List.map_cons]
    · have hnone : 12 - len = 0 := by omega
      rw [if_neg hlen, hnone, List.take_zero, List.map_nil]

/-! ### Names of entries -/

/-- The entry has a name and an extension, each padded with spaces. -/
structure DirEntry.Named (e : DirEntry) (base ext : List U8) : Prop where
  name : e.name = base ++ List.replicate (8 - base.length) space ++
    (ext ++ List.replicate (3 - ext.length) space)
  base_ne : base ≠ []
  base_le : base.length ≤ 8
  ext_le : ext.length ≤ 3
  plain : ∀ c ∈ base ++ ext, c ≠ space ∧ c ≠ dot ∧ c ≠ 0

/-- The entry of the directory itself, or of the one it is in. -/
def DirEntry.Dots (e : DirEntry) : Prop :=
  e.name = dot :: List.replicate 10 space ∨ e.name = dot :: dot :: List.replicate 9 space

section Named

variable {e e' : DirEntry} {base ext : List U8}

theorem DirEntry.Named.base_plain (h : e.Named base ext) :
    space ∉ base ∧ dot ∉ base ∧ (0 : U8) ∉ base :=
  have hplain {c : U8} (hc : c ∈ base) := h.plain c (List.mem_append_left _ hc)
  ⟨fun hc => (hplain hc).1 rfl, fun hc => (hplain hc).2.1 rfl, fun hc => (hplain hc).2.2 rfl⟩

theorem DirEntry.Named.ext_plain (h : e.Named base ext) :
    space ∉ ext ∧ dot ∉ ext ∧ (0 : U8) ∉ ext :=
  have hplain {c : U8} (hc : c ∈ ext) := h.plain c (List.mem_append_right _ hc)
  ⟨fun hc => (hplain hc).1 rfl, fun hc => (hplain hc).2.1 rfl, fun hc => (hplain hc).2.2 rfl⟩

/-- `short_filename` of a padded name. -/
theorem shortFilename_named (h : e.Named base ext) :
    e.shortFilename = base ++ List.replicate (8 - base.length) space ++
      (if ext = [] then space else dot) :: (ext ++ List.replicate (3 - ext.length) space) := by
  have hlen : (base ++ List.replicate (8 - base.length) space).length = 8 := by
    rw [List.length_append, List.length_replicate]
    have := h.base_le
    omega
  have htake : e.name.take 8 = base ++ List.replicate (8 - base.length) space := by
    rw [h.name]
    exact List.take_left' hlen
  have hdrop : e.name.drop 8 = ext ++ List.replicate (3 - ext.length) space := by
    rw [h.name]
    exact List.drop_left' hlen
  have hhead : e.name.headD 0 ≠ dot := by
    obtain ⟨c, rest, rfl⟩ := List.exists_cons_of_ne_nil h.base_ne
    rw [h.name]
    exact (h.plain c (by simp)).2.1
  have hany : (ext ++ List.replicate (3 - ext.length) space).any (· ≠ space) = true ↔ ext ≠ [] := by
    rw [List.any_append, Bool.or_eq_true]
    constructor
    · rintro (hext | hpad) rfl
      · simp at hext
      · simp at hpad
    · intro hext
      obtain ⟨c, rest, rfl⟩ := List.exists_cons_of_ne_nil hext
      left
      simp [(h.plain c (by simp)).1]
  rw [DirEntry.shortFilename, htake, hdrop]
  have hmark : (if (ext ++ List.replicate (3 - ext.length) space).any (· ≠ space) = true ∧
      e.name.headD 0 ≠ dot then dot else space) = if ext = [] then space else dot := by
    by_cases hext : ext = []
    · rw [if_pos hext, if_neg fun hno => hany.mp hno.1 hext]
    · rw [if_neg hext, if_pos ⟨hany.mpr hext, hhead⟩]
  rw [hmark]
  have hzero : ∀ c ∈ base ++ List.replicate (8 - base.length) space ++
      (if ext = [] then space else dot) :: (ext ++ List.replicate (3 - ext.length) space),
      decide (c ≠ 0) = true := by
    intro c hc
    rw [decide_eq_true_eq]
    simp only [List.mem_append, List.mem_cons, List.mem_replicate] at hc
    rintro rfl
    rcases hc with (hc | hc) | hc | hc | hc
    · exact h.base_plain.2.2 hc
    · exact absurd hc.2 (by decide)
    · split at hc <;> exact absurd hc (by decide)
    · exact h.ext_plain.2.2 hc
    · exact absurd hc.2 (by decide)
  exact List.takeWhile_eq_self_iff.mpr hzero

/-- What a lookup compares: the name, and the extension with the spaces after it. -/
theorem canonical_short (h : e.Named base ext) :
    canonical e.shortFilename = (base.map lower,
      if ext = [] then none
      else some ((ext ++ List.replicate (3 - ext.length) space).map lower)) := by
  obtain ⟨hspace, hdot, -⟩ := h.base_plain
  rw [shortFilename_named h]
  by_cases hext : ext = []
  · subst hext
    have hpad : base ++ List.replicate (8 - base.length) space ++ space :: List.replicate 3 space =
        base ++ List.replicate (8 - base.length + 4) space := by
      rw [List.append_assoc, ← List.replicate_append_replicate]
      rfl
    rw [if_pos rfl, if_pos rfl]
    exact (congrArg canonical hpad).trans (canonical_base hspace hdot _)
  · have hx : dot ∉ ext ++ List.replicate (3 - ext.length) space := by
      rw [List.mem_append, List.mem_replicate, not_or]
      exact ⟨h.ext_plain.2.1, fun hc => absurd hc.2 (by decide)⟩
    rw [if_neg hext, if_neg hext, canonical_ext hspace hx]

/-- What a listing shows: the name, and the extension after a dot, if there is one. -/
theorem listed_named (h : e.Named base ext) :
    e.listed.filename = (base ++ if ext = [] then [] else dot :: ext).map lower := by
  have hkeep : ∀ l : List U8, space ∉ l → l.filter (· ≠ space) = l := fun l hl =>
    List.filter_eq_self.mpr fun c hc => decide_eq_true fun hspace => hl (hspace ▸ hc)
  have hdrop : ∀ n, (List.replicate n space).filter (· ≠ space) = [] := fun n => by simp
  show displayLoop e.shortFilename 0 = _
  rw [displayLoop_eq, shortFilename_named h]
  have hbase := h.base_le
  have hext := h.ext_le
  by_cases hno : ext = []
  · subst hno
    simp only [List.filter_append, hkeep base h.base_plain.1, hdrop, List.append_nil, if_true,
      List.nil_append, List.filter_cons_of_neg, ne_eq, not_true_eq_false, decide_false,
      Bool.false_eq_true, not_false_eq_true]
    rw [List.take_of_length_le (by omega)]
  · have hdot : ∀ l : List U8, (dot :: l).filter (· ≠ space) = dot :: l.filter (· ≠ space) :=
      fun l => List.filter_cons_of_pos (by decide)
    rw [if_neg hno, if_neg hno, List.filter_append, List.filter_append, hdrop, hdot,
      List.filter_append, hdrop, hkeep base h.base_plain.1, hkeep ext h.ext_plain.1,
      List.append_nil, List.append_nil, List.take_of_length_le]
    rw [List.length_append, List.length_cons]
    omega

/-- The canonical form of the name that is shown. -/
theorem canonical_listed (h : e.Named base ext) :
    canonical e.listed.filename =
      (base.map lower, if ext = [] then none else some (ext.map lower)) := by
  obtain ⟨hspace, hdot, -⟩ := h.base_plain
  have hspace' := space_mem_lower.not.mpr hspace
  rw [listed_named h]
  by_cases hext : ext = []
  · have hform := canonical_base hspace' (dot_mem_lower.not.mpr hdot) 0
    rw [List.replicate_zero, List.append_nil, map_lower_lower] at hform
    rw [if_pos hext, if_pos hext, List.append_nil, hform]
  · have hform := canonical_ext hspace' (dot_mem_lower.not.mpr h.ext_plain.2.1) 0
    have hlower : lower dot = dot := by decide
    rw [List.replicate_zero, List.append_nil, map_lower_lower, map_lower_lower] at hform
    rw [if_neg hext, if_neg hext, List.map_append, List.map_cons, hlower, hform]

theorem shortFilename_zero (e : DirEntry) : (0 : U8) ∉ e.shortFilename := by
  intro h
  rw [DirEntry.shortFilename] at h
  have hne := List.mem_takeWhile_imp h
  exact absurd hne (by decide)

/-- The name that an entry is listed under matches an entry that is listed under it too, if the
extension has no room left; and nothing otherwise. -/
theorem compareNames_listed (h : e.Named base ext) {base' ext' : List U8}
    (h' : e'.Named base' ext') :
    compareNames e'.shortFilename e.listed.filename = true ↔
      (ext = [] ∨ ext.length = 3) ∧ e'.listed.filename = e.listed.filename := by
  have hlisted : e'.listed.filename = e.listed.filename ↔
      base'.map lower = base.map lower ∧ ext'.map lower = ext.map lower := by
    constructor
    · intro hsame
      have hforms := congrArg canonical hsame
      rw [canonical_listed h, canonical_listed h', Prod.mk.injEq] at hforms
      obtain ⟨hbase, hext⟩ := hforms
      refine ⟨hbase, ?_⟩
      split_ifs at hext with h₁ h₂ h₂
      · rw [h₁, h₂]
      · exact Option.some.inj hext
    · rintro ⟨hbase, hext⟩
      have hnil : ext' = [] ↔ ext = [] := by
        rw [← List.map_eq_nil_iff, hext, List.map_eq_nil_iff]
      rw [listed_named h, listed_named h', List.map_append, List.map_append, hbase]
      by_cases hno : ext = []
      · rw [if_pos hno, if_pos (hnil.mpr hno)]
      · rw [if_neg hno, if_neg (hnil.not.mpr hno), List.map_cons, List.map_cons, hext]
  rw [compareNames_eq (shortFilename_zero e'), canonical_short h', canonical_listed h,
    Prod.mk.injEq, hlisted]
  have hle := h.ext_le
  have hle' := h'.ext_le
  constructor
  · rintro ⟨hbase, hext⟩
    split_ifs at hext with h₁ h₂ h₂
    · exact ⟨.inl h₂, hbase, by rw [h₁, h₂]⟩
    · have hext := Option.some.inj hext
      -- spaces after the extension would be spaces in it
      have hpad : 3 - ext'.length = 0 := by
        by_contra hpos
        have hspace : space ∈ ext.map lower := by
          rw [← hext, space_mem_lower, List.mem_append, List.mem_replicate]
          exact .inr ⟨hpos, rfl⟩
        exact h.ext_plain.1 (space_mem_lower.mp hspace)
      rw [hpad, List.replicate_zero, List.append_nil] at hext
      have hlen := congrArg List.length hext
      rw [List.length_map, List.length_map] at hlen
      exact ⟨.inr (by omega), hbase, hext⟩
  · rintro ⟨hfull, hbase, hext⟩
    have hlen := congrArg List.length hext
    rw [List.length_map, List.length_map] at hlen
    refine ⟨hbase, ?_⟩
    rcases hfull with rfl | hfull
    · rw [if_pos (List.eq_nil_of_length_eq_zero hlen), if_pos rfl]
    · have hpos : ∀ l : List U8, l.length = 3 → l ≠ [] := fun l hl hnil => by
        rw [hnil] at hl
        cases hl
      have hpad : 3 - ext'.length = 0 := by omega
      rw [if_neg (hpos ext' (hlen.trans hfull)), if_neg (hpos ext hfull), hpad,
        List.replicate_zero, List.append_nil, hext]

/-- `.` and `..` are neither found under the name of another entry nor listed under it. -/
theorem compareNames_dots (h : e.Named base ext) (h' : e'.Dots) :
    compareNames e'.shortFilename e.listed.filename = false ∧
      e'.listed.filename ≠ e.listed.filename := by
  have hbase : base.map lower ≠ [] := List.map_eq_nil_iff.not.mpr h.base_ne
  have hdot : dot ∉ base.map lower := dot_mem_lower.not.mpr h.base_plain.2.1
  have hhead : ∀ rest, e.listed.filename ≠ dot :: rest := by
    intro rest hsame
    obtain ⟨c, base, rfl⟩ := List.exists_cons_of_ne_nil h.base_ne
    rw [listed_named h, List.cons_append, List.map_cons, List.cons.injEq] at hsame
    exact (h.plain c (by simp)).2.1 (lower_dot_iff.mp hsame.1)
  have hcompare : canonical e'.shortFilename ≠ canonical e.listed.filename →
      compareNames e'.shortFilename e.listed.filename = false := fun hne =>
    Bool.eq_false_iff.mpr fun htrue =>
      hne ((compareNames_eq (shortFilename_zero e')).mp htrue)
  rcases h' with hname | hname
  · have hshort : e'.shortFilename = dot :: List.replicate 11 space := by
      rw [DirEntry.shortFilename, hname]
      decide
    have hform : canonical (dot :: List.replicate 11 space) =
        ([], some (List.replicate 11 space)) := by decide
    refine ⟨hcompare fun hsame => ?_, fun hsame => hhead [] ?_⟩
    · rw [hshort, hform, canonical_listed h, Prod.mk.injEq] at hsame
      exact hbase hsame.1.symm
    · rw [← hsame]
      show displayLoop e'.shortFilename 0 = _
      rw [hshort]
      decide
  · have hshort : e'.shortFilename = dot :: dot :: List.replicate 10 space := by
      rw [DirEntry.shortFilename, hname]
      decide
    have hform : canonical (dot :: dot :: List.replicate 10 space) =
        ([dot], some (List.replicate 10 space)) := by decide
    refine ⟨hcompare fun hsame => ?_, fun hsame => hhead [dot] ?_⟩
    · rw [hshort, hform, canonical_listed h, Prod.mk.injEq] at hsame
      exact hdot (hsame.1 ▸ List.mem_singleton_self dot)
    · rw [← hsame]
      show displayLoop e'.shortFilename 0 = _
      rw [hshort]
      decide

end Named

/-! ### What is listed and what is found -/

/-- The entries of a directory of `n` sectors that are shown. -/
def Volume.shown (vol : Volume) (disk : Disk) (cluster : U32) (n : Nat) : List DirEntry :=
  (vol.dirEntries disk cluster n).filter DirEntry.sfnOnly

section Listing

variable {disk : Disk} {vol : Volume} {cluster : U32} {n fuel calls : Nat} {fs : Fatfs}

/-- A lookup among the entries that are shown. -/
theorem getFileEntry_shown (hdir : vol.DirSectors disk cluster n) (hfuel : n < fuel)
    (hfs : fs.Sound disk vol) (name : List U8) :
    (getFileEntry disk cluster name fuel 0 fs).1 =
      some ((vol.shown disk cluster n).find? fun e => compareNames e.shortFilename name) := by
  rw [(getFileEntry_reads hdir name hfuel fs hfs).1, Volume.shown, List.find?_filter]
  refine congrArg some (List.find?_congr fun e _ => ?_)
  rw [DirEntry.matches_, Bool.decide_and, Bool.decide_eq_true, Bool.decide_eq_true]

theorem listDirectory_shown (hdir : vol.DirSectors disk cluster n) (hfuel : n < fuel)
    (hcalls : dirEntriesPerSector * n < calls) (hfs : fs.Sound disk vol) :
    (listDirectory disk fuel calls (listDirectoryStart cluster) fs).1 =
      some ((vol.shown disk cluster n).map DirEntry.listed) :=
  (listDirectory_reads hdir hfuel hcalls fs hfs).1

/-- **Listing and looking up** see the same entries: whatever name is looked for, it is that of the
first entry listed whose canonical name it has. -/
theorem listed_canonical (hdir : vol.DirSectors disk cluster n) (hfuel : n < fuel)
    (hcalls : dirEntriesPerSector * n < calls) (hfs : fs.Sound disk vol) :
    ∃ shown : List DirEntry,
      (listDirectory disk fuel calls (listDirectoryStart cluster) fs).1 =
        some (shown.map DirEntry.listed) ∧
      ∀ name, (getFileEntry disk cluster name fuel 0 fs).1 =
        some (shown.find? fun e => canonical e.shortFilename = canonical name) := by
  refine ⟨_, listDirectory_shown hdir hfuel hcalls hfs, fun name => ?_⟩
  rw [getFileEntry_shown hdir hfuel hfs]
  refine congrArg some (List.find?_congr fun e _ => ?_)
  rw [Bool.eq_iff_iff, compareNames_eq (shortFilename_zero e), decide_eq_true_eq]

/-- **The name that is listed** finds the first entry that is listed under it, where the extension
is blank or has three characters.  Where it has one or two, nothing is found. -/
theorem listed_lookup (hdir : vol.DirSectors disk cluster n) (hfuel : n < fuel)
    (hcalls : dirEntriesPerSector * n < calls) (hfs : fs.Sound disk vol)
    (hnames : ∀ e ∈ vol.shown disk cluster n, (∃ base ext, e.Named base ext) ∨ e.Dots) :
    (listDirectory disk fuel calls (listDirectoryStart cluster) fs).1 =
        some ((vol.shown disk cluster n).map DirEntry.listed) ∧
      ∀ e ∈ vol.shown disk cluster n, ∀ base ext, e.Named base ext →
        (getFileEntry disk cluster e.listed.filename fuel 0 fs).1 =
          some (if ext = [] ∨ ext.length = 3
            then (vol.shown disk cluster n).find? (·.listed.filename = e.listed.filename)
            else none) := by
  refine ⟨listDirectory_shown hdir hfuel hcalls hfs, fun e _ base ext h => ?_⟩
  rw [getFileEntry_shown hdir hfuel hfs]
  have hmatch : ∀ e' ∈ vol.shown disk cluster n,
      compareNames e'.shortFilename e.listed.filename =
        decide ((ext = [] ∨ ext.length = 3) ∧ e'.listed.filename = e.listed.filename) := by
    intro e' he'
    rcases hnames e' he' with ⟨base', ext', h'⟩ | hdots
    · rw [Bool.eq_iff_iff, compareNames_listed h h', decide_eq_true_eq]
    · obtain ⟨hno, hne⟩ := compareNames_dots h hdots
      rw [hno, eq_comm, decide_eq_false_iff_not]
      exact fun hno => hne hno.2
  rw [List.find?_congr hmatch]
  by_cases hfull : ext = [] ∨ ext.length = 3
  · simp only [hfull, true_and, if_true]
  · simp only [hfull, false_and, decide_false, if_false, List.find?_eq_none.mpr, Bool.false_eq_true,
      not_false_eq_true, implies_true]

end Listing

theorem listed_canonical_sample : ∃ shown : List DirEntry,
    (listDirectory sampleDisk 2 17 (listDirectoryStart 0)
      (Fatfs.attach sampleDisk sampleVolume)).1 = some (shown.map DirEntry.listed) ∧
    ∀ name, (getFileEntry sampleDisk 0 name 2 0 (Fatfs.attach sampleDisk sampleVolume)).1 =
      some (shown.find? fun e => canonical e.shortFilename = canonical name) :=
  listed_canonical sampleSectors (by decide) (by decide) (Fatfs.attach_sound _ _)

theorem listed_lookup_sample :
    (listDirectory sampleDisk 2 17 (listDirectoryStart 0)
        (Fatfs.attach sampleDisk sampleVolume)).1 =
        some ((sampleVolume.shown sampleDisk 0 1).map DirEntry.listed) ∧
      ∀ e ∈ sampleVolume.shown sampleDisk 0 1, ∀ base ext, e.Named base ext →
        (getFileEntry sampleDisk 0 e.listed.filename 2 0 (Fatfs.attach sampleDisk sampleVolume)).1 =
          some (if ext = [] ∨ ext.length = 3
            then (sampleVolume.shown sampleDisk 0 1).find? (·.listed.filename = e.listed.filename)
            else none) := by
  have hshown : sampleVolume.shown sampleDisk 0 1 = [sampleEntry] := by decide +kernel
  refine listed_lookup sampleSectors (by decide) (by decide) (Fatfs.attach_sound _ _) fun e he => ?_
  rw [hshown, List.mem_singleton] at he
  subst he
  exact .inl ⟨ascii "A", ascii "TXT", by decide, by decide, by decide, by decide, by decide⟩

end Prephv.Fat
