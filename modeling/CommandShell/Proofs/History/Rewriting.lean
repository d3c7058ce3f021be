import CommandShell.Proofs.History.File
import CommandShell.Proofs.History.Tail
import CommandShell.Proofs.Host.RootFile

/-!
# A file that is written anew

A load drops what is no part of a record: line ends of any length, blank records and the bytes of
broken characters. What a save then writes consists of records and line feeds only, so the next load
finds the same entries in it, and the next save writes the same bytes.
-/

namespace CommandShell

variable {World : Type}

namespace History

namespace Record

/-- What a load and a save make of the content of a file. -/
def rewritten (limit : Nat) (content : Bytes) : Bytes :=
  Update.bytes { replaces := true, lines := newest limit (parse content) }

theorem recordable_of_mem_newest {limit : Nat} {content : Bytes} :
    ∀ line ∈ newest limit (parse content), Recordable line :=
  fun _ hline => recordable_of_mem_parse (mem_of_mem_newest hline)

theorem parse_rewritten (limit : Nat) (content : Bytes) :
    parse (rewritten limit content) = newest limit (parse content) :=
  parse_bytes recordable_of_mem_newest true

/-- The contents that stay what they are: records, each with a line feed behind it, and no more of
them than the window holds. -/
theorem rewritten_eq_self_iff {limit : Nat} {content : Bytes} :
    rewritten limit content = content ↔
      ∃ lines, (∀ line ∈ lines, Recordable line) ∧ lines.length ≤ limit ∧
        content = Update.bytes { replaces := true, lines } := by
  constructor
  · intro hsame
    exact ⟨newest limit (parse content), recordable_of_mem_newest, length_newest_le _ _,
      hsame.symm⟩
  · rintro ⟨lines, hlines, hlength, rfl⟩
    rw [rewritten, parse_bytes hlines, newest_of_length_le hlength]

theorem rewritten_rewritten (limit : Nat) (content : Bytes) :
    rewritten limit (rewritten limit content) = rewritten limit content :=
  rewritten_eq_self_iff.mpr ⟨newest limit (parse content), recordable_of_mem_newest,
    length_newest_le _ _, rfl⟩

end Record

variable {platform : Platform World} {path : Path} {holds : World → Option Bytes → Prop}

theorem saveUpdate_loaded (path? : Option Path) (limit : Nat) (sync : Sync) (content : Bytes) :
    ((new path? limit sync).loaded (Record.parse content)).saveUpdate =
      { replaces := true, lines := newest (max limit 1) (Record.parse content) } := by
  rw [saveUpdate, lines_loaded]
  rfl

/-- A fresh load and a save bring the content into its normal form. -/
theorem load_save_of_stores (hstores : platform.Stores path holds) {world : World}
    {content? : Option Bytes} (hholds : holds world content?) (limit : Nat) (sync : Sync) :
    let loaded := (new (some path) limit sync).load platform world
    let saved := loaded.1.save platform world
    loaded.1.entries = number (newest (max limit 1) (Record.parse (content?.getD []))) ∧
      loaded.2 = .ok loaded.1.entries.length ∧ saved.2.2 = .ok () ∧
      holds saved.1 (some (Record.rewritten (max limit 1) (content?.getD []))) := by
  intro loaded saved
  have hload : loaded = _ := load_new hstores hholds limit sync
  have hhistory : loaded.1 =
      (new (some path) limit sync).loaded (Record.parse (content?.getD [])) :=
    congrArg Prod.fst hload
  obtain ⟨after, hsave, hafter⟩ := save_of_stores hstores hholds
    (show loaded.1.path? = some path by rw [hhistory]; rfl)
  rw [hhistory, saveUpdate_loaded] at hafter
  have hsaved : saved = (after, loaded.1.saved, .ok ()) := hsave
  refine ⟨?_, ?_, ?_, ?_⟩
  · rw [hhistory]
    rfl
  · rw [hload]
  · rw [hsaved]
  · rw [hsaved]
    exact hafter

/-- Whatever a file holds, a load and a save make of it a file that brings back the same entries and
that another load and save leave as it is, byte for byte. -/
theorem load_save_again (hstores : platform.Stores path holds) {world : World}
    {content? : Option Bytes} (hholds : holds world content?) (limit : Nat) (sync mode : Sync) :
    let first := (new (some path) limit sync).load platform world
    let saved := first.1.save platform world
    let second := (new (some path) limit mode).load platform saved.1
    let again := second.1.save platform saved.1
    first.1.entries = number (newest (max limit 1) (Record.parse (content?.getD []))) ∧
      first.2 = .ok first.1.entries.length ∧ saved.2.2 = .ok () ∧
      second.1.entries = first.1.entries ∧ second.2 = first.2 ∧ again.2.2 = .ok () ∧
      platform.read saved.1 path = .ok (Record.rewritten (max limit 1) (content?.getD [])) ∧
      platform.read again.1 path = platform.read saved.1 path := by
  intro first saved second again
  obtain ⟨hentries, hcount, hsave, hsaved⟩ := load_save_of_stores hstores hholds limit sync
  obtain ⟨hentries', hcount', hsave', hagain⟩ := load_save_of_stores hstores hsaved limit mode
  rw [Option.getD_some, Record.parse_rewritten, newest_newest, ← hentries] at hentries'
  rw [Option.getD_some, Record.rewritten_rewritten] at hagain
  have hsame : second.2 = first.2 :=
    hcount'.trans ((congrArg (fun entries => Except.ok entries.length) hentries').trans hcount.symm)
  exact ⟨hentries, hcount, hsave, hentries', hsame, hsave', hstores.read hsaved,
    (hstores.read hagain).trans (hstores.read hsaved).symm⟩

/-- Broken characters, blank records, carriage returns in runs and no line feed at the end. -/
theorem load_save_again_broken :
    let content : Bytes :=
      Utf8.encode "a\r\n\r\r\n\nb\r".toList ++ [0xF0, 0x9F, 10, 0xC3] ++ Utf8.encode "c\r\r".toList
    let world := Host.bare.put [['h']] (.file content false)
    let first := (new (some "/h".toList) 2 .onExit).load (Host.platform 2) world
    let saved := first.1.save (Host.platform 2) world
    let second := (new (some "/h".toList) 2 .eachLine).load (Host.platform 2) saved.1
    let again := second.1.save (Host.platform 2) saved.1
    ((Host.platform 2).Stores "/h" (Host.HoldsInRoot ['h']) ∧
      Host.HoldsInRoot ['h'] world (some content)) ∧
    first.1.entries = [⟨0, "b\r\uFFFD".toList⟩, ⟨1, "\uFFFDc".toList⟩] ∧
      second.1.entries = first.1.entries ∧ second.2 = first.2 ∧
      (Host.platform 2).read saved.1 "/h" =
        .ok (Utf8.encode "b\r\uFFFD\n\uFFFDc\n".toList) ∧
      (Host.platform 2).read again.1 "/h" = (Host.platform 2).read saved.1 "/h" := by
  intro content world first saved second again
  have hname : Host.FileSystem.IsName ['h'] := ⟨by decide, by decide, by decide, by decide⟩
  have hstores : (Host.platform 2).Stores "/h" (Host.HoldsInRoot ['h']) := Host.stores_root hname 2
  have hholds : Host.HoldsInRoot ['h'] world (some content) := ⟨false, rfl⟩
  obtain ⟨hentries, -, -, hsame, hcount, -, hsaved, hagain⟩ :=
    load_save_again hstores hholds 2 .onExit .eachLine
  have hrecords : newest (max 2 1) (Record.parse content) =
      ["b\r\uFFFD".toList, "\uFFFDc".toList] := by decide +kernel
  have hrewritten : Record.rewritten (max 2 1) content =
      Utf8.encode "b\r\uFFFD\n\uFFFDc\n".toList := by decide +kernel
  rw [Option.getD_some, hrecords] at hentries
  rw [Option.getD_some, hrewritten] at hsaved
  exact ⟨⟨hstores, hholds⟩, hentries, hsame, hcount, hsaved, hagain⟩

end History

end CommandShell
