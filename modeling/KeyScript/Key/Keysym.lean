import KeyScript.Text.Number

/-!
The X keysym of a key name. A name without one passes through unchanged.
-/

namespace KeyScript

namespace Key

def keysyms : List (Text × Text) :=
  [("\t", "Tab"), ("\n", "Return"), ("\x0d", "Return"), (" ", "space"),
   ("!", "exclam"), ("\"", "quotedbl"), ("#", "numbersign"), ("$", "dollar"),
   ("%", "percent"), ("&", "ampersand"), ("'", "apostrophe"), ("(", "parenleft"),
   (")", "parenright"), ("*", "asterisk"), ("+", "plus"), (",", "comma"),
   ("-", "minus"), (".", "period"), ("/", "slash"), (":", "colon"),
   (";", "semicolon"), ("<", "less"), ("=", "equal"), (">", "greater"),
   ("?", "question"), ("@", "at"), ("[", "bracketleft"), ("\\", "backslash"),
   ("]", "bracketright"), ("^", "asciicircum"), ("_", "underscore"), ("`", "grave"),
   ("\x7b", "braceleft"), ("|", "bar"), ("\x7d", "braceright"), ("~", "asciitilde"),
   ("alt", "alt"), ("altleft", "Alt_L"), ("altright", "Alt_R"),
   ("ctrl", "ctrl"), ("ctrlleft", "Control_L"), ("ctrlright", "Control_R"),
   ("shift", "shift"), ("shiftleft", "Shift_L"), ("shiftright", "Shift_R"),
   ("win", "super"), ("winleft", "Super_L"), ("winright", "Super_R"),
   ("command", "super"), ("option", "alt"), ("optionleft", "Alt_L"), ("optionright", "Alt_R"),
   ("apps", "Menu"), ("fn", "function"),
   ("enter", "Return"), ("return", "Return"), ("esc", "Escape"), ("escape", "Escape"),
   ("tab", "Tab"), ("space", "space"), ("backspace", "BackSpace"),
   ("del", "Delete"), ("delete", "Delete"), ("insert", "Insert"),
   ("home", "Home"), ("end", "End"),
   ("pageup", "Prior"), ("pgup", "Prior"), ("pagedown", "Next"), ("pgdn", "Next"),
   ("up", "Up"), ("down", "Down"), ("left", "Left"), ("right", "Right"),
   ("capslock", "Caps_Lock"), ("numlock", "Num_Lock"), ("scrolllock", "Scroll_Lock"),
   ("pause", "Pause"), ("clear", "Clear"), ("help", "Help"), ("select", "Select"),
   ("execute", "Execute"), ("sleep", "XF86Sleep"),
   ("print", "Print"), ("printscreen", "Print"), ("prntscrn", "Print"), ("prtsc", "Print"),
   ("prtscr", "Print"),
   ("add", "KP_Add"), ("subtract", "KP_Subtract"), ("multiply", "KP_Multiply"),
   ("divide", "KP_Divide"), ("decimal", "KP_Decimal"), ("separator", "KP_Separator"),
   ("volumeup", "XF86AudioRaiseVolume"), ("volumedown", "XF86AudioLowerVolume"),
   ("volumemute", "XF86AudioMute"), ("playpause", "XF86AudioPlay"),
   ("nexttrack", "XF86AudioNext"), ("prevtrack", "XF86AudioPrev"), ("stop", "XF86AudioStop"),
   ("browserback", "XF86Back"), ("browserforward", "XF86Forward"),
   ("browserhome", "XF86HomePage"), ("browserrefresh", "XF86Refresh"),
   ("browsersearch", "XF86Search"), ("browserstop", "XF86Stop"),
   ("browserfavorites", "XF86Favorites"), ("launchmail", "XF86Mail"),
   ("launchapp1", "XF86Launch0"), ("launchapp2", "XF86Launch1"),
   ("launchmediaselect", "XF86AudioMedia"),
   ("hangul", "Hangul"), ("hanguel", "Hangul"), ("hanja", "Hangul_Hanja"),
   ("kana", "Katakana"), ("kanji", "Kanji"), ("junja", "Hangul_Jeonja"),
   ("final", "Hangul_End"), ("convert", "Henkan"), ("nonconvert", "Muhenkan"),
   ("modechange", "Mode_switch"), ("accept", "Execute"), ("yen", "yen")].map
    fun (a, b) => (utf8 a, utf8 b)

/-- The keysym of a function key: `f` and a number from 1 to 24, digits kept as written. -/
def functionKeysym : Text → Option Text
  | 102 :: number =>
    match Text.readDecimal number with
    | .ok n => if 1 ≤ n ∧ n ≤ 24 then some (utf8 "F" ++ number) else none
    | .error _ => none
  | _ => none

def padKeysym : Text → Option Text
  | [110, 117, 109, d] => if Text.isDigit d then some (utf8 "KP_" ++ [d]) else none
  | _ => none

def keysym (name : Text) : Text :=
  ((keysyms.lookup name).or ((functionKeysym name).or (padKeysym name))).getD name

end Key

end KeyScript
