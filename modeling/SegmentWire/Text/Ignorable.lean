import SegmentWire.Text.RangeSet

/-!
# Characters that show nothing

Fillers, joiners, selectors and their like, and code points set aside for more of them. A text
layout that does not support one leaves it out, so a reader cannot see that it is there, even
where its general category is that of a letter.
-/

namespace SegmentWire.Text

/-- The code points with the property Default_Ignorable_Code_Point. -/
def ignorable : RangeSet := ⟨#[
    0xAD, 0xAE, 0x34F, 0x350, 0x61C, 0x61D, 0x115F, 0x1161, 0x17B4, 0x17B6, 0x180B, 0x1810,
    0x200B, 0x2010, 0x202A, 0x202F, 0x2060, 0x2070, 0x3164, 0x3165, 0xFE00, 0xFE10, 0xFEFF,
    0xFF00, 0xFFA0, 0xFFA1, 0xFFF0, 0xFFF9, 0x1BCA0, 0x1BCA4, 0x1D173, 0x1D17B, 0xE0000,
    0xE1000]⟩

/-- The table is in the order that membership needs. -/
theorem ignorable_increasing : ignorable.Increasing := by decide +kernel

end SegmentWire.Text
