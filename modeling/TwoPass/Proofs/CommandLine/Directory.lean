import TwoPass.CommandLine.Directory

/-!
# What writing a file changes

A path that can be written leads to one place.  Writing puts the contents there and changes no other
file; since the directories on the way exist already, no directory comes into being or disappears.
Paths therefore lead to the same places before and after.
-/

namespace TwoPass.CommandLine

/-- A text is read back from its UTF-8 form. -/
theorem textOf_toUTF8 (text : String) : textOf text.toUTF8 = .ok text := by
  have hvalid : String.fromUTF8? text.toUTF8 = some text := dif_pos text.isValidUTF8
  rw [textOf, hvalid]

namespace Directory

variable {directory next : Directory} {place other : Place} {path : String} {contents : ByteArray}

/-! ## Directories -/

theorem holds_iff : holds place other = true ↔ place <+: other ∧ place ≠ other := by
  simp [holds]

theorem holds_of_above {target : Place} (habove : other <+: place)
    (h : holds place target = true) : holds other target = true := by
  rw [holds_iff] at h ⊢
  refine ⟨habove.trans h.1, ?_⟩
  intro hsame
  rw [hsame] at habove
  exact h.2 (h.1.eq_of_length (Nat.le_antisymm h.1.length_le habove.length_le))

/-- What a directory is in is a directory. -/
theorem isDirectory_of_above (habove : other <+: place) (h : directory.isDirectory place = true) :
    directory.isDirectory other = true := by
  simp only [isDirectory, Bool.or_eq_true, List.any_eq_true] at h ⊢
  rcases h with (hdots | hnull) | ⟨file, hfile, hholds⟩
  · rw [List.all_eq_true] at hdots ⊢
    exact .inl (.inl fun name hname ↦ hdots name (habove.subset hname))
  · exact .inl (.inr (holds_of_above habove hnull))
  · exact .inr ⟨file, hfile, holds_of_above habove hholds⟩

theorem isDirectory_replace :
    (directory.replace place contents).isDirectory other = directory.isDirectory other := by
  have hfile (file : File) :
      holds other (if file.place = place then ⟨place, contents⟩ else file : File).place =
        holds other file.place := by
    split
    · next h => rw [h]
    · rfl
  simp only [isDirectory, replace, List.any_map, Function.comp_def, hfile]

theorem isDirectory_add :
    (directory.add place contents).isDirectory other =
      (directory.isDirectory other || holds other place) := by
  simp [isDirectory, add, Bool.or_assoc]

/-- A new file in a directory makes no other directories. -/
theorem isDirectory_put {parent : Place} {name : String}
    (hparent : directory.isDirectory parent = true) :
    (directory.put (parent ++ [name]) contents).isDirectory other =
      directory.isDirectory other := by
  unfold put
  split
  · rfl
  · split
    · exact isDirectory_replace
    · rw [isDirectory_add]
      cases hholds : holds other (parent ++ [name]) with
      | false => rw [Bool.or_false]
      | true =>
        -- what holds the new file is its parent or above it, and was a directory before
        obtain ⟨habove, hne⟩ := holds_iff.mp hholds
        have hother : other <+: parent :=
          (List.prefix_concat_iff.mp habove).resolve_left hne
        rw [isDirectory_of_above hother hparent, Bool.or_true]

/-! ## Files -/

theorem file?_of_ne_nullDevice (h : other ≠ nullDevice) :
    directory.file? other = directory.files.find? fun file ↦ file.place = other :=
  if_neg h

theorem file?_replace (h : other ≠ nullDevice) :
    (directory.replace place contents).file? other =
      (directory.file? other).map fun file ↦
        if file.place = place then ⟨place, contents⟩ else file := by
  rw [file?_of_ne_nullDevice h, file?_of_ne_nullDevice h, replace, List.find?_map]
  congr 2
  funext file
  by_cases hfile : file.place = place
  · simp [hfile]
  · simp [hfile]

theorem file?_add (h : other ≠ nullDevice) :
    (directory.add place contents).file? other =
      (directory.file? other).or (if place = other then some ⟨place, contents⟩ else none) := by
  rw [file?_of_ne_nullDevice h, file?_of_ne_nullDevice h, add, List.find?_append,
    List.find?_singleton]
  simp

theorem place_of_file? {file : File} (h : directory.file? place = some file) :
    file.place = place := by
  unfold file? at h
  split at h
  · exact congrArg File.place (Option.some.inj h).symm
  · simpa using List.find?_some h

/-- The file that was put somewhere is there. -/
theorem file?_put_self (hplace : place ≠ nullDevice) :
    (directory.put place contents).file? place = some ⟨place, contents⟩ := by
  rw [put, if_neg hplace]
  split
  · next hsome =>
    obtain ⟨file, hfile⟩ := Option.isSome_iff_exists.mp hsome
    rw [file?_replace hplace, hfile, Option.map_some, if_pos (place_of_file? hfile)]
  · next hnone =>
    rw [file?_add hplace, Option.not_isSome_iff_eq_none.mp hnone, if_pos rfl, Option.none_or]

/-- No other file changes. -/
theorem file?_put_of_ne (hother : other ≠ place) :
    (directory.put place contents).file? other = directory.file? other := by
  by_cases hnull : other = nullDevice
  · rw [hnull, file?, file?, if_pos rfl, if_pos rfl]
  · rw [put]
    split
    · rfl
    · split
      · rw [file?_replace hnull]
        cases hfile : directory.file? other with
        | none => rfl
        | some file =>
          rw [Option.map_some, if_neg]
          rwa [place_of_file? hfile]
      · rw [file?_add hnull, if_neg (Ne.symm hother), Option.or_none]

/-! ## Walks -/

theorem enter_eq_ok_iff {name : String} {next : Place} :
    directory.enter place name = .ok next ↔
      lookUp place name = .ok next ∧ directory.isDirectory next = true := by
  unfold enter
  cases lookUp place name with
  | error fault => simp [bind, Except.bind]
  | ok found =>
    by_cases hfound : directory.isDirectory found = true
    · simp only [bind, Except.bind, hfound, if_true, pure, Except.pure, Except.ok.injEq]
      grind
    · have herror : ∀ fault : FileFault, (throw fault : Except FileFault Place) ≠ .ok next := by
        intro fault
        exact nofun
      simp only [bind, Except.bind, hfound, Except.ok.injEq]
      grind

theorem walk_cons_eq_ok_iff {name : String} {names : List String} {target : Place} :
    directory.walk place (name :: names) = .ok target ↔
      ∃ next, directory.enter place name = .ok next ∧ directory.walk next names = .ok target := by
  rw [walk]
  cases directory.enter place name <;> simp [bind, Except.bind]

/-- A walk ends in a directory. -/
theorem isDirectory_of_walk {names : List String} {target : Place}
    (hplace : directory.isDirectory place = true) (h : directory.walk place names = .ok target) :
    directory.isDirectory target = true := by
  induction names generalizing place with
  | nil =>
    obtain rfl := Except.ok.inj h
    exact hplace
  | cons name names ih =>
    obtain ⟨next, hnext, hrest⟩ := walk_cons_eq_ok_iff.mp h
    exact ih (enter_eq_ok_iff.mp hnext).2 hrest

/-- A walk succeeds in all directories that have the same directories in them. -/
theorem walk_of_isDirectory_eq
    (hsame : ∀ other, next.isDirectory other = directory.isDirectory other)
    {names : List String} {target : Place} (h : directory.walk place names = .ok target) :
    next.walk place names = .ok target := by
  induction names generalizing place with
  | nil => exact h
  | cons name names ih =>
    obtain ⟨middle, hmiddle, hrest⟩ := walk_cons_eq_ok_iff.mp h
    apply walk_cons_eq_ok_iff.mpr
    refine ⟨middle, ?_, ih hrest⟩
    rw [enter_eq_ok_iff, hsame]
    exact enter_eq_ok_iff.mp hmiddle

theorem isDirectory_start (path : Path) : directory.isDirectory (.start path) = true := by
  have hroot : holds ["/"] nullDevice = true := by
    decide
  unfold Place.start
  split
  · simp [isDirectory, hroot]
  · simp [isDirectory]

theorem target_eq_entry_iff {path : Path} {parent : Place} {name : String} {slashed : Bool} :
    directory.target path = .ok (.entry parent name slashed) ↔
      path.names.getLast? = some name ∧ Path.isDots name = false ∧ path.slashed = slashed ∧
        directory.walk (.start path) path.names.dropLast = .ok parent := by
  unfold target
  cases path.names.getLast? with
  | none => cases path.rooted <;> simp
  | some last =>
    simp only [Option.some.injEq]
    cases directory.walk (.start path) path.names.dropLast with
    | error fault => simp [bind, Except.bind]
    | ok found =>
      simp only [bind, Except.bind]
      cases hdots : Path.isDots last with
      | true =>
        simp only [if_true, pure, Except.pure]
        grind
      | false =>
        simp only [Bool.false_eq_true, if_false, pure, Except.pure]
        grind

theorem locate_eq_entry_iff {parent : Place} {name : String} {slashed : Bool} :
    directory.locate path = .ok (.entry parent name slashed) ↔
      path.utf8ByteSize ≤ pathLimit ∧
        directory.target (.parse path) = .ok (.entry parent name slashed) := by
  unfold locate
  split
  · next h => simp [h]
  · next h => simp [h]

/-! ## Writing -/

/-- A path leads to a place at which a file can be written. -/
structure WritesAt (directory : Directory) (path : String) (place : Place) : Prop where
  located : ∃ parent name, directory.locate path = .ok (.entry parent name false) ∧
    lookUp parent name = .ok place
  notDirectory : directory.isDirectory place = false

namespace WritesAt

theorem write_eq (h : directory.WritesAt path place) (contents : ByteArray) :
    directory.write path contents = .ok (directory.put place contents) := by
  obtain ⟨parent, name, hlocate, hplace⟩ := h.located
  simp [write, hlocate, hplace, h.notDirectory, bind, Except.bind, pure, Except.pure]

theorem read_eq (h : directory.WritesAt path place) {file : File}
    (hfile : directory.file? place = some file) : directory.read path = .ok file.contents := by
  obtain ⟨parent, name, hlocate, hplace⟩ := h.located
  simp [read, hlocate, hplace, hfile, bind, Except.bind, pure, Except.pure]

/-- The text of a file is read from its UTF-8 form. -/
theorem readText_eq (h : directory.WritesAt path place) {text : String}
    (hfile : directory.file? place = some ⟨place, text.toUTF8⟩) :
    directory.readText path = .ok text := by
  rw [readText, h.read_eq hfile]
  exact textOf_toUTF8 text

theorem exists_parent (h : directory.WritesAt path place) :
    ∃ parent name, place = parent ++ [name] ∧ directory.isDirectory parent = true := by
  obtain ⟨parent, name, hlocate, hplace⟩ := h.located
  obtain ⟨-, htarget⟩ := locate_eq_entry_iff.mp hlocate
  obtain ⟨-, hdots, -, hwalk⟩ := target_eq_entry_iff.mp htarget
  refine ⟨parent, name, ?_, isDirectory_of_walk (isDirectory_start _) hwalk⟩
  have hfollow : place = parent.follow name := by
    rw [lookUp] at hplace
    split at hplace
    · exact (Except.ok.inj hplace).symm
    · exact nomatch hplace
  simp only [Path.isDots, Bool.or_eq_false_iff, decide_eq_false_iff_not] at hdots
  rw [hfollow, Place.follow, if_neg hdots.1, if_neg hdots.2]

theorem isDirectory_put (h : directory.WritesAt path place) :
    (directory.put place contents).isDirectory other = directory.isDirectory other := by
  obtain ⟨parent, name, rfl, hparent⟩ := h.exists_parent
  exact Directory.isDirectory_put hparent

/-- Writing a file does not change where paths lead to. -/
theorem put {otherPath : String} (hother : directory.WritesAt otherPath other)
    (h : directory.WritesAt path place) (contents : ByteArray) :
    (directory.put place contents).WritesAt otherPath other := by
  have hsame (somewhere : Place) :
      (directory.put place contents).isDirectory somewhere = directory.isDirectory somewhere :=
    h.isDirectory_put
  obtain ⟨parent, name, hlocate, hplace⟩ := hother.located
  rw [locate_eq_entry_iff, target_eq_entry_iff] at hlocate
  obtain ⟨hlength, hlast, hdots, hslashed, hwalk⟩ := hlocate
  constructor
  · refine ⟨parent, name, ?_, hplace⟩
    rw [locate_eq_entry_iff, target_eq_entry_iff]
    exact ⟨hlength, hlast, hdots, hslashed, walk_of_isDirectory_eq hsame hwalk⟩
  · rw [hsame]
    exact hother.notDirectory

/-- A name alone leads to the file of this name. -/
theorem of_name {name : String} (hpath : Path.parse name = ⟨false, [name], false⟩)
    (hdots : Path.isDots name = false) (hsize : name.utf8ByteSize ≤ nameLimit)
    (hname : directory.isDirectory [name] = false) : directory.WritesAt name [name] := by
  simp only [Path.isDots, Bool.or_eq_false_iff, decide_eq_false_iff_not] at hdots
  refine ⟨⟨[], name, ?_, ?_⟩, hname⟩
  · rw [locate_eq_entry_iff, target_eq_entry_iff, hpath]
    refine ⟨Nat.le_trans hsize (by decide), rfl, ?_, rfl, rfl⟩
    simp [Path.isDots, hdots]
  · rw [lookUp, if_pos hsize, Place.follow, if_neg hdots.1, if_neg hdots.2]
    rfl

end WritesAt

end Directory

end TwoPass.CommandLine
