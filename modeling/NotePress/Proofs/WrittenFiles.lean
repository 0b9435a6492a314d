import NotePress.Disk.Basic
import NotePress.Proofs.Bytes
import NotePress.Proofs.Lists
import NotePress.Proofs.Paths

/-!
# Written files are read back

The bytes of a text are read as the text: the first byte of a character tells how many follow, and
the bounds on the second one let it pass, since a character is no surrogate and its bytes are the
shortest ones (`Text.decode?_encode`).

A file is put where no directory is. Walks go through directories only, so the walk to the file's
own directory is the same before and after, and `Disk.readText_of_write` gives back what was
written.
-/

namespace NotePress

/-! ### Bytes of a text -/

namespace Text

/-- The last byte of a character ends it. -/
theorem decodeParts_last {low high bits n : Nat} {bs : List UInt8} (hn : n < 256)
    (hlow : low ≤ n) (hhigh : n ≤ high) :
    decodeParts (some ⟨1, low, high, bits⟩) (n.toUInt8 :: bs) =
      some (Char.ofNat (bits * 0x40 + (n - 0x80))) :: decodeParts none bs := by
  rw [decodeParts]
  simp only [toNat_toUInt8 hn, hlow, hhigh]
  rfl

/-- A byte in between goes on with a character. -/
theorem decodeParts_inner {missing low high bits n : Nat} {bs : List UInt8} (hn : n < 256)
    (hlow : low ≤ n) (hhigh : n ≤ high) :
    decodeParts (some ⟨missing + 2, low, high, bits⟩) (n.toUInt8 :: bs) =
      decodeParts (some ⟨missing + 1, 0x80, 0xBF, bits * 0x40 + (n - 0x80)⟩) bs := by
  rw [decodeParts]
  simp only [toNat_toUInt8 hn, hlow, hhigh]
  simp

/-- The first byte of a longer character begins it. -/
theorem decodeParts_multi {b : UInt8} {p : PendingChar} (h : lead b = .multi p) (bs : List UInt8) :
    decodeParts none (b :: bs) = decodeParts (some p) bs := by
  rw [decodeParts]
  simp only [h]

theorem lead_two {a : Nat} (hlow : 2 ≤ a) (hhigh : a < 0x20) :
    lead (0xC0 + a).toUInt8 = .multi ⟨1, 0x80, 0xBF, a⟩ := by
  unfold lead
  simp only [toNat_toUInt8 (show 0xC0 + a < 256 by omega)]
  rw [if_neg (by omega), if_neg (by omega), if_pos (by omega), Nat.add_sub_cancel_left]

theorem lead_three {a : Nat} (ha : a < 0x10) :
    lead (0xE0 + a).toUInt8 =
      .multi ⟨2, if a = 0 then 0xA0 else 0x80, if a = 0xD then 0x9F else 0xBF, a⟩ := by
  have hfirst : 0xE0 + a = 0xE0 ↔ a = 0 := by omega
  have hlast : 0xE0 + a = 0xED ↔ a = 0xD := by omega
  unfold lead
  simp only [toNat_toUInt8 (show 0xE0 + a < 256 by omega), hfirst, hlast]
  rw [if_neg (by omega), if_neg (by omega), if_neg (by omega), if_pos (by omega),
    Nat.add_sub_cancel_left]

theorem lead_four {a : Nat} (ha : a < 5) :
    lead (0xF0 + a).toUInt8 =
      .multi ⟨3, if a = 0 then 0x90 else 0x80, if a = 4 then 0x8F else 0xBF, a⟩ := by
  have hfirst : 0xF0 + a = 0xF0 ↔ a = 0 := by omega
  have hlast : 0xF0 + a = 0xF4 ↔ a = 4 := by omega
  unfold lead
  simp only [toNat_toUInt8 (show 0xF0 + a < 256 by omega), hfirst, hlast]
  rw [if_neg (by omega), if_neg (by omega), if_neg (by omega), if_neg (by omega), if_pos (by omega),
    Nat.add_sub_cancel_left]

/-- **The bytes of a character are read as the character**: the bounds that keep out overlong forms
and surrogates let it pass, because it is none of them. -/
theorem decodeParts_encodeChar (c : Char) (bs : List UInt8) :
    decodeParts none (encodeChar c ++ bs) = some c :: decodeParts none bs := by
  have hvalid : c.toNat < 0xD800 ∨ 0xDFFF < c.toNat ∧ c.toNat < 0x110000 := c.valid
  have hchar : ∀ n, n = c.toNat → Char.ofNat n = c := fun n hn => by rw [hn, Char.ofNat_toNat]
  generalize hn : c.toNat = n at hvalid hchar
  unfold encodeChar
  simp only [hn]
  split
  · rename_i h
    rw [List.singleton_append, decodeParts]
    simp only [lead, toNat_toUInt8 (show n < 256 by omega), h, if_true]
    rw [hchar n rfl]
  · split
    · rename_i h
      show decodeParts none (_ :: _ :: bs) = _
      rw [decodeParts_multi (lead_two (by omega) (by omega)),
        decodeParts_last (by omega) (by omega) (by omega), hchar _ (by omega)]
    · split
      · rename_i h
        show decodeParts none (_ :: _ :: _ :: bs) = _
        have hlow : (if n / 0x1000 = 0 then 0xA0 else 0x80) ≤ 0x80 + n / 0x40 % 0x40 := by
          split <;> omega
        have hhigh : 0x80 + n / 0x40 % 0x40 ≤ if n / 0x1000 = 0xD then 0x9F else 0xBF := by
          split <;> omega
        rw [decodeParts_multi (lead_three (by omega)), decodeParts_inner (by omega) hlow hhigh,
          decodeParts_last (by omega) (by omega) (by omega), hchar _ (by omega)]
      · rename_i h
        show decodeParts none (_ :: _ :: _ :: _ :: bs) = _
        have hlow : (if n / 0x40000 = 0 then 0x90 else 0x80) ≤ 0x80 + n / 0x1000 % 0x40 := by
          split <;> omega
        have hhigh : 0x80 + n / 0x1000 % 0x40 ≤ if n / 0x40000 = 4 then 0x8F else 0xBF := by
          split <;> omega
        rw [decodeParts_multi (lead_four (by omega)), decodeParts_inner (by omega) hlow hhigh,
          decodeParts_inner (by omega) (by omega) (by omega),
          decodeParts_last (by omega) (by omega) (by omega), hchar _ (by omega)]

/-- **A text is read back from its bytes.** -/
theorem decode?_encode (t : Text) : decode? (encode t) = some t := by
  have hparts : decodeParts none (encode t) = t.map some := by
    induction t with
    | nil => rfl
    | cons c rest ih =>
      show decodeParts none (encodeChar c ++ encode rest) = _
      rw [decodeParts_encodeChar, ih]
      rfl
  unfold decode?
  rw [hparts, List.mapM_map, mapM_eq_some_map (k := id) (by exact fun _ _ => rfl), List.map_id]

end Text

/-! ### Files -/

namespace Disk

variable {d d' : Disk} {names : List Text} {e : Entry}

theorem lookup_filter_ne {entries : List (List Text × Entry)} {there : List Text}
    (hne : there ≠ names) :
    (entries.filter (·.1 ≠ names)).lookup there = entries.lookup there := by
  induction entries with
  | nil => rfl
  | cons x rest ih =>
    by_cases hx : x.1 = names
    · have hother : (there == x.1) = false := by simpa [hx] using hne
      rw [List.filter_cons_of_neg (by simpa using hx), ih, List.lookup_cons, hother]
    · rw [List.filter_cons_of_pos (by simpa using hx), List.lookup_cons, List.lookup_cons, ih]

theorem entry?_put_self (hnames : names ≠ []) : Disk.entry? (d.put names e) names = some e := by
  unfold entry? put
  split
  · exact absurd rfl hnames
  · simp

/-- What stands below the root: the latest entry of the path, or a directory if others are below it. -/
theorem entry?_cons (d : Disk) (x : Text) (rest : List Text) : d.entry? (x :: rest) =
    (d.entries.lookup (x :: rest)).or
      (if d.entries.any fun e => (x :: rest).isPrefixOf e.1 then some .directory else none) := by
  unfold entry?
  cases d.entries.lookup (x :: rest) <;> rfl

/-- Directories stay when something is put elsewhere. -/
theorem entry?_put_of_directory {there : List Text} (h : d.entry? there = some .directory)
    (hne : there ≠ names) : Disk.entry? (d.put names e) there = some .directory := by
  cases there with
  | nil => rfl
  | cons x rest =>
    have hother : (x :: rest == names) = false := by simpa using hne
    rw [entry?_cons] at h ⊢
    simp only [put, List.lookup_cons, hother, lookup_filter_ne hne, List.any_cons]
    cases hlookup : d.entries.lookup (x :: rest) with
    | some found => simpa only [hlookup, Option.some_or] using h
    | none =>
      simp only [hlookup, Option.none_or] at h ⊢
      have hany : (d.entries.any fun e => (x :: rest).isPrefixOf e.1) = true := by
        cases hany : d.entries.any fun e => (x :: rest).isPrefixOf e.1 with
        | true => rfl
        | false => rw [hany] at h; cases h
      obtain ⟨below, hbelow, hisPrefix⟩ := List.any_eq_true.mp hany
      refine if_pos ?_
      rw [Bool.or_eq_true, List.any_eq_true]
      by_cases hsame : below.1 = names
      · exact .inl (hsame ▸ hisPrefix)
      · exact .inr ⟨below, List.mem_filter.mpr ⟨hbelow, by simpa using hsame⟩, hisPrefix⟩

/-- A step is made from a directory. -/
theorem directory_of_step {here there : List Text} {name : Text} (h : d.step here name = .ok there) :
    d.entry? here = some .directory := by
  unfold step at h
  split at h
  · cases h
  · cases h
  · assumption

theorem walk_cons_eq_ok {here there path : List Text} {name : Text}
    (h : d.walk here (name :: path) = .ok there) :
    ∃ next, d.step here name = .ok next ∧ d.walk next path = .ok there := by
  unfold walk at h
  cases hstep : d.step here name with
  | error e =>
    rw [hstep] at h
    cases h
  | ok next =>
    rw [hstep] at h
    exact ⟨next, rfl, h⟩

/-- A walk that ends in a directory begins in one. -/
theorem directory_of_walk {here there path : List Text} (h : d.walk here path = .ok there)
    (hthere : d.entry? there = some .directory) : d.entry? here = some .directory := by
  cases path with
  | nil => cases h; exact hthere
  | cons name path =>
    obtain ⟨next, hstep, -⟩ := walk_cons_eq_ok h
    exact directory_of_step hstep

/-- A step into a directory is made as well when something is put where no directory is. -/
theorem step_put {here there : List Text} {name : Text} (h : d.step here name = .ok there)
    (hthere : d.entry? there = some .directory) (hnames : d.entry? names ≠ some .directory) :
    (d.put names e).step here name = .ok there := by
  have hstays : ∀ {p}, d.entry? p = some .directory →
      Disk.entry? (d.put names e) p = some .directory := fun hp =>
    entry?_put_of_directory hp (by rintro rfl; exact hnames hp)
  have hhere := directory_of_step h
  unfold step at h ⊢
  rw [hhere] at h
  rw [hstays hhere]
  simp only at h ⊢
  split at h
  · rename_i hstay
    rw [if_pos hstay]
    exact h
  · rename_i hstay
    rw [if_neg hstay]
    split at h
    · rename_i hup
      rw [if_pos hup]
      exact h
    · rename_i hup
      rw [if_neg hup]
      split at h
      · cases h
      · rename_i hshort
        rw [if_neg hshort]
        split at h <;> cases h
        rw [if_pos (by rw [hstays hthere]; rfl)]

/-- **A walk to a directory goes the same way** when something is put where no directory is. -/
theorem walk_put {here there path : List Text} (h : d.walk here path = .ok there)
    (hthere : d.entry? there = some .directory) (hnames : d.entry? names ≠ some .directory) :
    (d.put names e).walk here path = .ok there := by
  induction path generalizing here with
  | nil => exact h
  | cons name path ih =>
    obtain ⟨next, hstep, hwalk⟩ := walk_cons_eq_ok h
    rw [walk, step_put hstep (directory_of_walk hwalk hthere) hnames]
    exact ih hwalk

theorem walk_append {here there front back : List Text} (h : d.walk here front = .ok there) :
    d.walk here (front ++ back) = d.walk there back := by
  induction front generalizing here with
  | nil => cases h; rfl
  | cons name front ih =>
    obtain ⟨next, hstep, hwalk⟩ := walk_cons_eq_ok h
    rw [List.cons_append, walk, hstep]
    exact ih hwalk

/-- A path that does not end with a slash ends with a name. -/
theorem exists_splitOn {path : Text} (hne : path ≠ []) (hslash : path.getLast? ≠ some '/') :
    ∃ front name, path.splitOn '/' = front ++ [name] ∧ name ≠ [] := by
  induction path using Text.splitOn_induct '/' with
  | single t ht => exact ⟨[], t, List.splitOn_eq_singleton ht, hne⟩
  | cons a b ha ih =>
    have hb : b ≠ [] := by
      rintro rfl
      exact hslash (by simp)
    have hlast : (a ++ '/' :: b).getLast? = b.getLast? := by
      obtain ⟨c, rest, rfl⟩ := List.exists_cons_of_ne_nil hb
      simp [List.getLast?_append, List.getLast?_cons]
    obtain ⟨front, name, hsplit, hname⟩ := ih hb (hlast ▸ hslash)
    refine ⟨a :: front, name, ?_, hname⟩
    rw [List.splitOn_append_cons_self_of_not_mem ha, hsplit]
    rfl

/-- A file goes into the directory that its path leads to without the last name. -/
theorem destination?_eq_ok {path : Text} {names : List Text} (h : d.destination? path = .ok names) :
    pathFault? path = none ∧ ∃ front directory name, path.splitOn '/' = front ++ [name] ∧
      d.walk [] front = .ok directory ∧ d.entry? directory = some .directory ∧
      names = directory ++ [name] ∧ ¬(name = [] ∨ name = ['.']) ∧ name ≠ ['.', '.'] ∧
      ¬nameLimit < Text.byteLength name := by
  unfold destination? at h
  cases hfault : pathFault? path with
  | some fault => simp [hfault] at h
  | none =>
    have hne : path ≠ [] := by
      rintro rfl
      cases hfault
    simp only [hfault] at h
    cases hwalk : d.walk []
        ((path.splitOn '/').reverse.dropWhile (· = [])).tail.reverse with
    | error fault => simp [hwalk, Except.bind] at h
    | ok directory =>
      simp only [hwalk, Except.bind] at h
      split at h
      · cases h
      · cases h
      · rename_i hdirectory
        split at h
        · cases h
        · rename_i hname
          split at h
          · cases h
          · rename_i hlimit
            cases h
            rw [not_or, not_or, not_or] at hname
            obtain ⟨hslash, hempty, hdot, hup⟩ := hname
            obtain ⟨front, name, hsplit, hnonempty⟩ := exists_splitOn hne hslash
            have hnames : ((path.splitOn '/').reverse.dropWhile (· = [])) =
                name :: front.reverse := by
              rw [hsplit]
              simp [hnonempty]
            rw [hnames] at hwalk hdot hup hlimit
            rw [List.tail_cons, List.reverse_reverse] at hwalk
            refine ⟨rfl, front, directory, name, hsplit, hwalk, hdirectory, ?_,
              not_or.mpr ⟨hnonempty, hdot⟩, hup, hlimit⟩
            rw [hnames]
            rfl

/-- **What is written is read.** -/
theorem readBytes_of_write {path : Text} {bytes : List UInt8} (h : d.write path bytes = .ok d') :
    d'.readBytes path = .ok bytes := by
  unfold write at h
  cases hdestination : d.destination? path with
  | error e => simp [hdestination, Except.bind] at h
  | ok names =>
    obtain ⟨hfault, front, directory, name, hsplit, hwalk, hdirectory, rfl, hname, hup, hlimit⟩ :=
      destination?_eq_ok hdestination
    simp only [hdestination, Except.bind] at h
    split at h
    · cases h
    · rename_i hnot
      cases h
      have hwalk' := walk_put (e := .file bytes) hwalk hdirectory hnot
      have hthere := @entry?_put_self d (directory ++ [name]) (.file bytes) (by simp)
      have hstep : (d.put (directory ++ [name]) (.file bytes)).step directory name =
          .ok (directory ++ [name]) := by
        unfold step
        rw [entry?_put_of_directory hdirectory (by simp)]
        simp only [hname, hup, hlimit, if_false, hthere]
        rfl
      have hlocate : (d.put (directory ++ [name]) (.file bytes)).locate path =
          .ok (directory ++ [name]) := by
        unfold locate
        rw [hfault, hsplit, walk_append hwalk', walk, hstep]
        rfl
      unfold readBytes
      rw [hlocate]
      simp only [Except.bind, hthere]

theorem readText_of_write {path t : Text} (h : d.write path (Text.encode t) = .ok d') :
    d'.readText path = .ok t := by
  unfold readText
  simp only [readBytes_of_write h, Except.bind, Text.decode?_encode]

/-! ### What can be read can be written -/

/-- A path that ends with a slash has nothing behind it. -/
theorem getLast?_splitOn {path : Text} (h : path.getLast? = some '/') :
    (path.splitOn '/').getLast? = some [] := by
  induction path using Text.splitOn_induct '/' with
  | single t ht => exact absurd (List.mem_of_getLast? h) ht
  | cons a b ha ih =>
    rw [List.splitOn_append_cons_self_of_not_mem ha, List.getLast?_cons]
    cases b with
    | nil => rfl
    | cons c rest =>
      rw [ih (by simpa [List.getLast?_append, List.getLast?_cons] using h)]
      rfl

/-- Where a walk can get: all above is directories. -/
def Reached (d : Disk) (here : List Text) : Prop :=
  ∀ above, above <+: here → above ≠ here → d.entry? above = some .directory

theorem Reached.directory {here above : List Text} (h : d.Reached here)
    (hhere : d.entry? here = some .directory) (habove : above <+: here) :
    d.entry? above = some .directory := by
  by_cases hsame : above = here
  · rwa [hsame]
  · exact h above habove hsame

theorem Reached.step {here there : List Text} {name : Text} (h : d.Reached here)
    (hstep : d.step here name = .ok there) : d.Reached there := by
  intro above habove hne
  have hdirectory : ∀ {above}, above <+: here → d.entry? above = some .directory :=
    h.directory (directory_of_step hstep)
  rw [step_eq_ok hstep, Path.follow] at habove hne
  split at habove
  · exact hdirectory habove
  · split at habove
    · exact hdirectory (habove.trans (List.dropLast_prefix here))
    · rename_i hstay hup
      rw [if_neg hstay, if_neg hup] at hne
      exact hdirectory ((List.prefix_concat_iff.mp habove).resolve_left hne)

/-- **A walk gets only where all above is directories.** -/
theorem Reached.walk {here there path : List Text} (h : d.Reached here)
    (hwalk : d.walk here path = .ok there) : d.Reached there := by
  induction path generalizing here with
  | nil => cases hwalk; exact h
  | cons name path ih =>
    obtain ⟨next, hstep, hrest⟩ := walk_cons_eq_ok hwalk
    exact ih (h.step hstep) hrest

theorem walk_concat_eq_ok {here there front : List Text} {name : Text}
    (h : d.walk here (front ++ [name]) = .ok there) :
    ∃ last, d.walk here front = .ok last ∧ d.step last name = .ok there := by
  induction front generalizing here with
  | nil =>
    obtain ⟨next, hstep, hwalk⟩ := walk_cons_eq_ok h
    cases hwalk
    exact ⟨here, rfl, hstep⟩
  | cons first front ih =>
    obtain ⟨next, hstep, hwalk⟩ := walk_cons_eq_ok h
    obtain ⟨last, hfront, hlast⟩ := ih hwalk
    exact ⟨last, by rw [walk, hstep]; exact hfront, hlast⟩

/-- A step to a file goes down by the file's name. -/
theorem step_eq_file {here there : List Text} {name : Text} {bytes : List UInt8}
    (hreached : d.Reached here) (h : d.step here name = .ok there)
    (hfile : d.entry? there = some (.file bytes)) :
    there = here ++ [name] ∧ ¬(name = [] ∨ name = ['.']) ∧ name ≠ ['.', '.'] ∧
      ¬nameLimit < Text.byteLength name := by
  have hhere := directory_of_step h
  have hbelow : ¬there <+: here := fun hprefix => by
    rw [hreached.directory hhere hprefix] at hfile
    cases hfile
  unfold step at h
  rw [hhere] at h
  simp only at h
  split at h
  · cases h
    exact absurd (List.prefix_refl _) hbelow
  · rename_i hstay
    split at h
    · cases h
      exact absurd (List.dropLast_prefix _) hbelow
    · rename_i hup
      split at h
      · cases h
      · rename_i hlimit
        split at h <;> cases h
        exact ⟨rfl, hstay, hup, hlimit⟩

/-- A file that can be read is where a file of its path goes. -/
theorem destination?_of_readBytes {path : Text} {bytes : List UInt8}
    (h : d.readBytes path = .ok bytes) :
    ∃ names, d.destination? path = .ok names ∧ d.entry? names = some (.file bytes) := by
  obtain ⟨there, hlocate, hfile⟩ := readBytes_eq_ok h
  obtain ⟨front, name, hsplit⟩ : ∃ front name, path.splitOn '/' = front ++ [name] :=
    ⟨_, _, (List.dropLast_append_getLast (List.splitOn_ne_nil _ _)).symm⟩
  unfold locate at hlocate
  cases hfault : pathFault? path with
  | some e => simp [hfault] at hlocate
  | none =>
    rw [hfault, hsplit] at hlocate
    obtain ⟨here, hfront, hstep⟩ := walk_concat_eq_ok hlocate
    have hroot : d.Reached [] := fun above habove hne => absurd (List.prefix_nil.mp habove) hne
    obtain ⟨rfl, hname, hup, hlimit⟩ := step_eq_file (hroot.walk hfront) hstep hfile
    have hslash : path.getLast? ≠ some '/' := fun hslash => by
      have hlast := getLast?_splitOn hslash
      rw [hsplit, List.getLast?_concat, Option.some_inj] at hlast
      exact hname (.inl hlast)
    refine ⟨_, ?_, hfile⟩
    have hnames : (path.splitOn '/').reverse.dropWhile (· = []) = name :: front.reverse := by
      rw [hsplit]
      simp [not_or.mp hname]
    have hlast : ¬(path.getLast? = some '/' ∨ name = [] ∨ name = ['.'] ∨ name = ['.', '.']) := by
      rw [not_or] at hname
      simp only [not_or]
      exact ⟨hslash, hname.1, hname.2, hup⟩
    unfold destination?
    rw [hfault]
    simp only [hnames, List.tail_cons, List.reverse_reverse, hfront, Except.bind,
      directory_of_step hstep, List.head?_cons, Option.getD_some]
    rw [if_neg hlast, if_neg hlimit]

/-- **A file that can be read can be written.** -/
theorem exists_write_of_readBytes {path : Text} {bytes : List UInt8} (new : List UInt8)
    (h : d.readBytes path = .ok bytes) : ∃ d', d.write path new = .ok d' := by
  obtain ⟨names, hdestination, hfile⟩ := destination?_of_readBytes h
  unfold write
  rw [hdestination]
  exact ⟨_, if_neg (by rw [hfile]; nofun)⟩

end Disk

end NotePress
