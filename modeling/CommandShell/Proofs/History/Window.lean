import CommandShell.History

/-!
# The window over the newest lines

Lines that fall out of the window would fall out of every later one, so it makes no difference
whether they are dropped when a line is taken up, when the file is read, or once at the end.
-/

namespace CommandShell.History

theorem newest_of_length_le {limit : Nat} {texts : List Text} (hfits : texts.length ≤ limit) :
    newest limit texts = texts := by
  rw [newest, Nat.sub_eq_zero_of_le hfits, List.drop_zero]

theorem newest_append_of_le {limit : Nat} (front : List Text) {back : List Text}
    (hfull : limit ≤ back.length) : newest limit (front ++ back) = newest limit back := by
  have hlength : (front ++ back).length - limit = front.length + (back.length - limit) := by
    rw [List.length_append]
    omega
  rw [newest, hlength, List.drop_length_add_append]
  rfl

theorem length_newest (limit : Nat) (texts : List Text) :
    (newest limit texts).length = min limit texts.length := by
  rw [newest, List.length_drop]
  omega

theorem length_newest_le (limit : Nat) (texts : List Text) :
    (newest limit texts).length ≤ limit := by
  rw [length_newest]
  exact Nat.min_le_left limit _

theorem mem_of_mem_newest {limit : Nat} {texts : List Text} {text : Text}
    (htext : text ∈ newest limit texts) : text ∈ texts :=
  List.mem_of_mem_drop htext

theorem newest_newest_append (limit : Nat) (front back : List Text) :
    newest limit (newest limit front ++ back) = newest limit (front ++ back) := by
  rcases Nat.le_total front.length limit with hfits | hfull
  · rw [newest_of_length_le hfits]
  · have hkept : limit ≤ (newest limit front ++ back).length := by
      rw [List.length_append, length_newest]
      omega
    have hfront : front.take (front.length - limit) ++ newest limit front = front :=
      List.take_append_drop _ front
    calc newest limit (newest limit front ++ back)
        = newest limit (front.take (front.length - limit) ++ (newest limit front ++ back)) :=
          (newest_append_of_le _ hkept).symm
      _ = newest limit (front ++ back) := by rw [← List.append_assoc, hfront]

theorem newest_newest_eq_min (inner outer : Nat) (texts : List Text) :
    newest outer (newest inner texts) = newest (min outer inner) texts := by
  have hdropped : texts.length - inner + ((newest inner texts).length - outer) =
      texts.length - min outer inner := by
    rw [length_newest]
    omega
  rw [newest, newest, newest, List.drop_drop, ← newest, hdropped]

theorem newest_newest (limit : Nat) (texts : List Text) :
    newest limit (newest limit texts) = newest limit texts := by
  rw [newest_newest_eq_min, Nat.min_self]

theorem lines_number (texts : List Text) : (number texts).map (·.line) = texts := by
  apply List.ext_getElem?
  intro index
  rw [number, List.getElem?_map, List.getElem?_mapIdx, Option.map_map]
  exact Option.map_id'

theorem number_injective : Function.Injective number :=
  Function.LeftInverse.injective lines_number

theorem lines_loaded (history : History) (records : List Text) :
    (history.loaded records).lines = newest history.limit records :=
  lines_number _

theorem newest_concat {limit : Nat} (hlimit : 1 ≤ limit) (texts : List Text) (line : Text) :
    newest limit (texts ++ [line]) = texts.drop (texts.length + 1 - limit) ++ [line] := by
  rw [newest, List.length_append, List.length_singleton]
  exact List.drop_append_of_le_length (by omega)

theorem length_lines (history : History) : history.lines.length = history.entries.length :=
  List.length_map _

theorem lines_record {history : History} (hlimit : 1 ≤ history.limit) (line : Text) :
    (history.record line).lines = newest history.limit (history.lines ++ [line]) := by
  rw [newest_concat hlimit, length_lines, lines, record, List.map_append, List.map_singleton]
  split
  · rw [lines_number]
  · next hroom =>
    have hnone : history.entries.length + 1 - history.limit = 0 := by omega
    rw [hnone, List.drop_zero, ← lines]

theorem foldl_record_eq {Part : Type} (part : History → Part)
    (hpart : ∀ history line, part (history.record line) = part history) (history : History)
    (texts : List Text) : part (texts.foldl record history) = part history := by
  induction texts generalizing history with
  | nil => rfl
  | cons text rest ih => rw [List.foldl_cons, ih, hpart]

/-- Lines taken up one by one leave the newest of all. -/
theorem lines_foldl_record {history : History} (hlimit : 1 ≤ history.limit) {earlier : List Text}
    (hlines : history.lines = newest history.limit earlier) (texts : List Text) :
    (texts.foldl record history).lines = newest history.limit (earlier ++ texts) := by
  induction texts generalizing history earlier with
  | nil => rw [List.foldl_nil, List.append_nil, hlines]
  | cons text rest ih =>
      have hnext : (history.record text).lines = newest history.limit (earlier ++ [text]) := by
        rw [lines_record hlimit, hlines, newest_newest_append]
      have hbound : 1 ≤ (history.record text).limit := hlimit
      calc (rest.foldl record (history.record text)).lines
          = newest history.limit ((earlier ++ [text]) ++ rest) := ih hbound hnext
        _ = newest history.limit (earlier ++ text :: rest) := by
            rw [List.append_assoc, List.singleton_append]

/-! ### Numbers in the window -/

theorem length_number (texts : List Text) : (number texts).length = texts.length :=
  List.length_mapIdx

theorem number_concat (front : List Text) (line : Text) :
    number (front ++ [line]) = number front ++ [{ index := front.length, line }] :=
  List.mapIdx_concat

/-- Numbers stay in step with places when the window moves on. -/
theorem entries_record {history : History} (hlimit : 1 ≤ history.limit)
    (hentries : history.entries = number history.lines) (line : Text) :
    (history.record line).entries =
      number (newest history.limit (history.lines ++ [line])) := by
  have hkept : (if history.limit ≤ history.entries.length then
        number (history.lines.drop (history.entries.length + 1 - history.limit))
      else history.entries) =
      number (history.lines.drop (history.entries.length + 1 - history.limit)) := by
    split
    · rfl
    · next hroom =>
      have hnone : history.entries.length + 1 - history.limit = 0 := by omega
      rw [hnone, List.drop_zero, ← hentries]
  rw [newest_concat hlimit, number_concat, length_lines, record, hkept, length_number]

theorem entries_record_newest {history : History} {limit : Nat} (hlimit : 1 ≤ limit)
    (hbound : history.limit = limit) {texts : List Text}
    (hentries : history.entries = number (newest limit texts)) (line : Text) :
    (history.record line).entries = number (newest limit (texts ++ [line])) := by
  have hlines : history.lines = newest limit texts := by
    rw [lines, hentries, lines_number]
  rw [entries_record (hbound.symm ▸ hlimit) (hlines.symm ▸ hentries), hlines, hbound,
    newest_newest_append]

end CommandShell.History
